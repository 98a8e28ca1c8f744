import LogSocket.ParentLinks

/-! The level and the appenders of a logger. Both come from the loggers at and above it, and no logger
that a peer makes up for its events changes either: they are what the configuration says of the
name, whatever other names have been asked for and in whatever order. -/

namespace LogSocket.Hierarchy

open Lib

/-- A logger as `getLogger` makes it. -/
def plain : Logger := ⟨.root, none, true, []⟩

/-- A logger apart from its link. -/
def unlinked (logger : Logger) : Logger := { logger with parent := .root }

/-- The loggers that there are at a name and above it, the lowest first. -/
def lineage (h : Hierarchy) (name : LogString) : List Logger :=
  (name :: above name).filterMap h.loggers.find?

/-- The level of the lowest logger that has one, or that of the root. -/
def inherited (root : RootLogger) (loggers : List Logger) : Level :=
  (loggers.findSome? (·.level)).getD root.level

/-- The appenders of all loggers up to the first that is not additive, or of all and the root. -/
def route (root : RootLogger) : List Logger → List AppenderPtr
  | [] => root.appenders
  | logger :: loggers =>
    if logger.additive then logger.appenders ++ route root loggers else logger.appenders

/-- The level that a configuration gives to a name. -/
def levelOf (h : Hierarchy) (name : LogString) : Level := inherited h.root (h.lineage name)

/-- The appenders that a configuration gives to a name. -/
def appendersOf (h : Hierarchy) (name : LogString) : List AppenderPtr :=
  route h.root (h.lineage name)

/-- No logger whose name the name of the root starts with came after one below it. -/
def Orderly (names : List LogString) : Prop :=
  ∀ n ∈ names, ∀ p ∈ names, p ∈ above n → p <+: rootName → names.idxOf p < names.idxOf n

instance (names : List LogString) : Decidable (Orderly names) :=
  decidable_of_iff (∀ n ∈ names, ∀ p ∈ names, (above n).contains p → p <+: rootName →
    names.idxOf p < names.idxOf n) (by simp [Orderly])

/-- A repository that has grown out of a configuration: `names` made the loggers of the configuration,
`more` those that came later. -/
structure Grown (names more : List LogString) (config h : Hierarchy) : Prop where
  linked : Linked (names ++ more) h
  mem (n : LogString) : there config.loggers n = decide (n ∈ names)
  root : h.root = config.root
  kept {n : LogString} {logger : Logger} : h.loggers.find? n = some logger →
    unlinked logger = unlinked ((config.loggers.find? n).getD plain)

@[simp] theorem unlinked_relink (name : LogString) (waited : Bool) (logger : Logger) :
    unlinked (relink name waited logger) = unlinked logger := by
  rw [relink]
  split <;> rfl

namespace Grown

variable {names more : List LogString} {config h h' : Hierarchy}

theorem refl (hLinked : Linked names config) : Grown names [] config config where
  linked := by rwa [List.append_nil]
  mem := hLinked.mem
  root := rfl
  kept hFind := by
    rw [hFind]
    rfl

/-- What was configured is there, and stays so. -/
theorem find?_config (hGrown : Grown names more config h) {n : LogString} :
    config.loggers.find? n = none ↔ n ∉ names := by
  have hMem := hGrown.mem n
  rw [there] at hMem
  rw [← Option.not_isSome_iff_eq_none, hMem]
  simp

theorem getLogger (hGrown : Grown names more config h) {x : LogString} (hSize : x.length < 2 ^ 32)
    (hOk : h.getLogger x = .ok h') : Grown names (more ++ [x]) config h' := by
  have hLinked := hGrown.linked.getLogger hSize hOk
  rw [List.append_assoc] at hLinked
  obtain ⟨-, rfl⟩ | ⟨hx, hAdded⟩ := hGrown.linked.getLogger_ok hSize hOk
  · exact ⟨hLinked, hGrown.mem, hGrown.root, hGrown.kept⟩
  refine ⟨hLinked, hGrown.mem, hAdded.root.trans hGrown.root, fun {n logger} hFind => ?_⟩
  by_cases hn : n = x
  · subst hn
    rw [hAdded.self] at hFind
    obtain rfl := Option.some.inj hFind
    have hNew : config.loggers.find? n = none :=
      hGrown.find?_config.mpr fun hMem => hx (List.mem_append_left _ hMem)
    rw [hNew]
    rfl
  · rw [hAdded.other hn] at hFind
    obtain ⟨old, hOld, rfl⟩ := Option.map_eq_some_iff.mp hFind
    rw [unlinked_relink, hGrown.kept hOld]

theorem run (hGrown : Grown names more config h) {asked : List LogString}
    (hSizes : ∀ n ∈ asked, n.length < 2 ^ 32) (hOk : h.run (asked.map .getLogger) = .ok h') :
    Grown names (more ++ asked) config h' := by
  induction asked generalizing more h with
  | nil =>
    obtain rfl := Except.ok.inj hOk
    rwa [List.append_nil]
  | cons x asked ih =>
    rw [List.forall_mem_cons] at hSizes
    rw [List.map_cons, Hierarchy.run, List.foldlM_cons] at hOk
    obtain ⟨h1, hStep, hRest⟩ := bind_eq_ok.mp hOk
    have hNext := ih (hGrown.getLogger hSizes.1 hStep) hSizes.2 hRest
    rwa [List.append_assoc] at hNext

end Grown

/-- The loggers that there are at and above that of a pointer. -/
def lineageAt (h : Hierarchy) : LoggerPtr → List Logger
  | .root => []
  | .named name => h.lineage name

/-- A bound for the loggers on the way to the root. -/
def depth : LoggerPtr → Nat
  | .root => 0
  | .named name => name.length + 1

theorem lineage_eq (h : Hierarchy) (name : LogString) : h.lineage name =
    (h.loggers.find? name).toList ++ (above name).filterMap h.loggers.find? := by
  rw [lineage, List.filterMap_cons]
  cases h.loggers.find? name <;> rfl

/-- The link of a logger is to a lower one. -/
theorem depth_link (names : List LogString) (n : LogString) :
    depth (link names n) < depth (.named n) := by
  cases hNearest : closest 0x2E (fun a => decide (a ∈ names)) n with
  | none =>
    rw [link_none hNearest]
    exact Nat.succ_pos _
  | some p =>
    have hLt := length_lt_of_mem_ancestors (closest_mem hNearest)
    rw [link_some hNearest]
    split
    · exact Nat.succ_pos _
    · exact Nat.succ_lt_succ hLt

theorem mem_of_link {names : List LogString} {n p : LogString} (h : link names n = .named p) :
    p ∈ names := by
  cases hNearest : closest 0x2E (fun a => decide (a ∈ names)) n with
  | none => rw [link_none hNearest] at h; cases h
  | some q =>
    rw [link_some hNearest] at h
    split at h
    · cases h
    · obtain rfl := LoggerPtr.named.inj h
      simpa using closest_there hNearest

namespace Linked

variable {names : List LogString} {h : Hierarchy} (hLinked : Linked names h)
include hLinked

/-- The logger of a name that was asked for, and its link, which is to a lower one. -/
theorem walk {n : LogString} (hn : n ∈ names) : ∃ logger, h.loggers.find? n = some logger ∧
    depth logger.parent < depth (.named n) ∧ ∀ p, logger.parent = .named p → p ∈ names := by
  obtain ⟨logger, hFind⟩ : ∃ logger, h.loggers.find? n = some logger := by
    rw [← Option.isSome_iff_exists, ← there, hLinked.mem]
    simpa using hn
  have hParent := hLinked.parent hFind
  refine ⟨logger, hFind, ?_, fun p hp => mem_of_link (hParent.symm.trans hp)⟩
  rw [hParent]
  exact depth_link _ _

/-- The loops up to the root end. -/
theorem effectiveLevelFrom {fuel : Nat} {logger : LoggerPtr} (hFuel : depth logger < fuel)
    (hNamed : ∀ n, logger = .named n → n ∈ names) :
    ∃ level, h.effectiveLevelFrom fuel logger = .ok level := by
  induction fuel generalizing logger with
  | zero => cases hFuel
  | succ fuel ih =>
    cases logger with
    | root => exact ⟨_, rfl⟩
    | named n =>
      obtain ⟨logger, hFind, hDepth, hMem⟩ := hLinked.walk (hNamed n rfl)
      rw [Hierarchy.effectiveLevelFrom, hFind]
      cases hLevel : logger.level with
      | some level => exact ⟨level, by simp [hLevel, pure, Except.pure]⟩
      | none => simpa [hLevel] using ih (by omega) hMem

theorem callAppendersFrom {fuel : Nat} {logger : LoggerPtr} (hFuel : depth logger < fuel)
    (hNamed : ∀ n, logger = .named n → n ∈ names) :
    ∃ appenders, h.callAppendersFrom fuel logger = .ok appenders := by
  induction fuel generalizing logger with
  | zero => cases hFuel
  | succ fuel ih =>
    cases logger with
    | root => exact ⟨_, rfl⟩
    | named n =>
      obtain ⟨logger, hFind, hDepth, hMem⟩ := hLinked.walk (hNamed n rfl)
      obtain ⟨appenders, hRest⟩ := ih (by omega) hMem
      rw [Hierarchy.callAppendersFrom, hFind]
      cases hAdditive : logger.additive with
      | true => exact ⟨logger.appenders ++ appenders, by simp [hAdditive, hRest, ok_bind, pure, Except.pure]⟩
      | false => exact ⟨logger.appenders, by simp [hAdditive, pure, Except.pure]⟩

theorem getEffectiveLevel {n : LogString} (hn : n ∈ names) :
    ∃ level, h.getEffectiveLevel n = .ok level :=
  hLinked.effectiveLevelFrom (Nat.lt_succ_self _) fun _ h => by rwa [← LoggerPtr.named.inj h]

theorem callAppenders {n : LogString} (hn : n ∈ names) :
    ∃ appenders, h.callAppenders n = .ok appenders :=
  hLinked.callAppendersFrom (Nat.lt_succ_self _) fun _ h => by rwa [← LoggerPtr.named.inj h]

end Linked

namespace Grown

variable {names more : List LogString} {config h : Hierarchy} (hGrown : Grown names more config h)
  (hOrderly : Orderly names)
include hGrown hOrderly

/-- The link of a logger leads to the configured loggers above it. -/
theorem lineageAt_link (n : LogString) :
    config.lineageAt (link (names ++ more) n) = (above n).filterMap config.loggers.find? := by
  have hThere (b : LogString) (h : (config.loggers.find? b).isSome) :
      decide (b ∈ names ++ more) = true := by
    have hMem := hGrown.mem b
    rw [there, h] at hMem
    simp [of_decide_eq_true hMem.symm]
  cases hNearest : closest 0x2E (fun a => decide (a ∈ names ++ more)) n with
  | none =>
    rw [link_none hNearest, filterMap_ancestors_of_none hThere hNearest]
    rfl
  | some p =>
    rw [link_some hNearest, filterMap_ancestors hThere hNearest]
    split
    next hPassed =>
      -- a logger that is passed over was not configured, and nothing is above it
      have hNew : p ∉ names := fun hp => by
        have hFirst := hPassed.2
        rw [List.idxOf_append_of_mem hp] at hFirst
        by_cases hOld : n ∈ names
        · have hBefore := hOrderly n hOld p hp (closest_mem hNearest) hPassed.1
          rw [List.idxOf_append_of_mem hOld] at hFirst
          omega
        · have hLt := List.idxOf_lt_length_iff.mpr hp
          rw [List.idxOf_append_of_notMem hOld] at hFirst
          omega
      have hTop : ancestors 0x2E p = [] := List.eq_nil_iff_forall_not_mem.mpr fun a ha =>
        not_prefix_rootName ha hPassed.1
      rw [hTop, List.filterMap_cons_none (hGrown.find?_config.mpr hNew)]
      rfl
    next => rfl

/-- What a walk from a logger of a repository sees next. -/
theorem walk {n : LogString} (hn : n ∈ names ++ more) : ∃ logger, h.loggers.find? n = some logger ∧
    unlinked logger = unlinked ((config.loggers.find? n).getD plain) ∧
    depth logger.parent < depth (.named n) ∧ (∀ p, logger.parent = .named p → p ∈ names ++ more) ∧
    config.lineage n = (config.loggers.find? n).toList ++ config.lineageAt logger.parent := by
  obtain ⟨logger, hFind, hDepth, hMem⟩ := hGrown.linked.walk hn
  refine ⟨logger, hFind, hGrown.kept hFind, hDepth, hMem, ?_⟩
  rw [hGrown.linked.parent hFind, hGrown.lineageAt_link hOrderly, lineage_eq]

theorem effectiveLevelFrom {fuel : Nat} {logger : LoggerPtr} (hFuel : depth logger < fuel)
    (hNamed : ∀ n, logger = .named n → n ∈ names ++ more) : h.effectiveLevelFrom fuel logger =
      .ok (inherited config.root (config.lineageAt logger)) := by
  induction fuel generalizing logger with
  | zero => cases hFuel
  | succ fuel ih =>
    cases logger with
    | root =>
      rw [Hierarchy.effectiveLevelFrom, hGrown.root]
      rfl
    | named n =>
      obtain ⟨logger, hFind, hSame, hDepth, hMem, hLineage⟩ :=
        hGrown.walk hOrderly (hNamed n rfl)
      have hLevel := congrArg Logger.level hSame
      have hRest := ih (by omega) hMem
      rw [Hierarchy.effectiveLevelFrom, hFind, lineageAt, hLineage]
      cases hConfig : config.loggers.find? n with
      | none =>
        have hNone : logger.level = none := by rwa [hConfig] at hLevel
        simpa [hNone] using hRest
      | some base =>
        have hBase : logger.level = base.level := by rwa [hConfig] at hLevel
        cases hSet : base.level with
        | none => simpa [inherited, hBase, hSet] using hRest
        | some level => simp [inherited, hBase, hSet, pure, Except.pure]

theorem callAppendersFrom {fuel : Nat} {logger : LoggerPtr} (hFuel : depth logger < fuel)
    (hNamed : ∀ n, logger = .named n → n ∈ names ++ more) : h.callAppendersFrom fuel logger =
      .ok (route config.root (config.lineageAt logger)) := by
  induction fuel generalizing logger with
  | zero => cases hFuel
  | succ fuel ih =>
    cases logger with
    | root =>
      rw [Hierarchy.callAppendersFrom, hGrown.root]
      rfl
    | named n =>
      obtain ⟨logger, hFind, hSame, hDepth, hMem, hLineage⟩ :=
        hGrown.walk hOrderly (hNamed n rfl)
      have hAdditive := congrArg Logger.additive hSame
      have hAppenders := congrArg Logger.appenders hSame
      have hRest := ih (by omega) hMem
      rw [Hierarchy.callAppendersFrom, hFind, lineageAt, hLineage]
      cases hConfig : config.loggers.find? n with
      | none =>
        have hPlain : logger.additive = true := by rwa [hConfig] at hAdditive
        have hEmpty : logger.appenders = [] := by rwa [hConfig] at hAppenders
        simp [hPlain, hEmpty, hRest, ok_bind, pure, Except.pure]
      | some base =>
        have hBase : logger.additive = base.additive := by rwa [hConfig] at hAdditive
        have hOwn : logger.appenders = base.appenders := by rwa [hConfig] at hAppenders
        cases hSet : base.additive <;>
          simp [hBase, hOwn, hSet, hRest, route, ok_bind, pure, Except.pure]

/-- The level of a logger is what the configuration says. -/
theorem getEffectiveLevel {n : LogString} (hn : n ∈ names ++ more) :
    h.getEffectiveLevel n = .ok (config.levelOf n) :=
  hGrown.effectiveLevelFrom hOrderly (Nat.lt_succ_self _) fun _ h => by
    rwa [← LoggerPtr.named.inj h]

theorem callAppenders {n : LogString} (hn : n ∈ names ++ more) :
    h.callAppenders n = .ok (config.appendersOf n) :=
  hGrown.callAppendersFrom hOrderly (Nat.lt_succ_self _) fun _ h => by
    rwa [← LoggerPtr.named.inj h]

end Grown

/-- Loggers that are asked for later take their level and their appenders from the configuration, and
leave those of all others alone. -/
theorem routing_of_config {ops : List Op} {asked : List LogString} {config h : Hierarchy}
    (hSizes : ∀ n ∈ ops.flatMap Op.asked, n.length < 2 ^ 32)
    (hAsked : ∀ n ∈ asked, n.length < 2 ^ 32) (hConfig : Hierarchy.new.run ops = .ok config)
    (hOrderly : Orderly (ops.flatMap Op.asked)) (hRun : config.run (asked.map .getLogger) = .ok h)
    {n : LogString} (hn : n ∈ ops.flatMap Op.asked ∨ n ∈ asked) :
    h.getEffectiveLevel n = .ok (config.levelOf n) ∧
      h.callAppenders n = .ok (config.appendersOf n) := by
  have hLinked := Linked.new.run hSizes hConfig
  rw [List.nil_append] at hLinked
  have hGrown := (Grown.refl hLinked).run hAsked hRun
  rw [List.nil_append] at hGrown
  have hMem := List.mem_append.mpr hn
  exact ⟨hGrown.getEffectiveLevel hOrderly hMem, hGrown.callAppenders hOrderly hMem⟩

/-- A configuration: an appender at the root, a level and an appender at `a`. -/
def configOps : List Op := [
  .addAppender .root 0,
  .getLogger [0x61],
  .setLevel (.named [0x61]) (some .warn),
  .addAppender (.named [0x61]) 1]

theorem configOps_asked : ∀ n ∈ configOps.flatMap Op.asked, n.length < 2 ^ 32 := by decide

/-- The loggers `a.b.c`, `r.x`, `a.b` and `r` -/
def peerNames : List LogString :=
  [[0x61, 0x2E, 0x62, 0x2E, 0x63], [0x72, 0x2E, 0x78], [0x61, 0x2E, 0x62], [0x72]]

theorem peerNames_length : ∀ n ∈ peerNames, n.length < 2 ^ 32 := by decide

theorem routing_of_config_sample : ∃ config h, Hierarchy.new.run configOps = .ok config ∧
    config.run (peerNames.map .getLogger) = .ok h ∧
    (h.getEffectiveLevel [0x61, 0x2E, 0x62, 0x2E, 0x63] = .ok .warn ∧
      h.callAppenders [0x61, 0x2E, 0x62, 0x2E, 0x63] = .ok [1, 0]) ∧
    h.getEffectiveLevel [0x72, 0x2E, 0x78] = .ok .debug ∧
      h.callAppenders [0x72, 0x2E, 0x78] = .ok [0] :=
  ⟨_, _, rfl, rfl,
    routing_of_config configOps_asked peerNames_length rfl (by decide) rfl (.inr (by decide)),
    routing_of_config configOps_asked peerNames_length rfl (by decide) rfl (.inr (by decide))⟩

end LogSocket.Hierarchy
