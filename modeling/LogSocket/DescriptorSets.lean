import LogSocket.Ownership

/-! The descriptor sets of the Select server. Nothing in the server looks at the numbers that
`accept` gives, so they stay below `FD_SETSIZE` as long as there is room for them below it; once
there is none, the next connection is written outside of the set. -/

namespace LogSocket

open Lib

/-- A call opened the socket. -/
def Opens (s : Socket) (t : ServerTrace) : Prop := ∃ e ∈ t, opened e = some s

theorem Opens.append {s : Socket} {t : ServerTrace} (h : Opens s t) (more : ServerTrace) :
    Opens s (t ++ more) := by
  obtain ⟨e, hMem, he⟩ := h
  exact ⟨e, List.mem_append_left _ hMem, he⟩

/-- No other descriptor of the process, of which there are `taken`, has the number. -/
def Free (taken : Set Int) (past : ServerTrace) (s : Socket) : Prop :=
  0 ≤ s ∧ s ∉ taken ∧ balance s past = 0

/-- A socket is opened with the lowest number that is free. -/
def Lowest (taken : ServerTrace → Set Int) (past : ServerTrace) (e : Σ o : Request, o.Answer) :
    Prop :=
  ∀ s, opened e = some s → Free (taken past) past s ∧ ∀ n, Free (taken past) past n → s ≤ n

namespace Select

/-- The sockets that a pass gives to `FD_SET`, and to `FD_ISSET` after `select`. -/
def passed (serverSocket : Socket) (clientSockets : Clients) : List Socket :=
  serverSocket :: clientSockets.entries.map (·.1)

/-- They are bits of an `fd_set`, and among those that `select` looks at. -/
structure InSets (serverSocket : Socket) (clientSockets : Clients) : Prop where
  size : ∀ s ∈ passed serverSocket clientSockets, s < FD_SETSIZE
  maxId : ∀ s ∈ passed serverSocket clientSockets,
    s ≤ getMaxId serverSocket (clientSockets.entries.map (·.1))

/-- When a socket is opened, a number below `FD_SETSIZE` is free. -/
def HasRoom (taken : ServerTrace → Set Int) (past : ServerTrace) (e : Σ o : Request, o.Answer) :
    Prop :=
  ∀ s, opened e = some s → ∃ n, Free (taken past) past n ∧ n < FD_SETSIZE

theorem le_getMaxId (serverSocket : Socket) (clientSockets : Clients) :
    ∀ s ∈ passed serverSocket clientSockets,
      s ≤ getMaxId serverSocket (clientSockets.entries.map (·.1)) := by
  intro s hMem
  have hSorted := clientSockets.keys_sorted
  unfold passed at hMem
  generalize clientSockets.entries.map (·.1) = sockets at hMem hSorted
  unfold getMaxId
  rcases List.eq_nil_or_concat sockets with rfl | ⟨sockets, last, rfl⟩
  · exact (List.mem_singleton.mp hMem).le
  · rw [List.concat_eq_append] at hMem hSorted ⊢
    rw [List.getLast?_concat]
    rw [List.pairwise_append] at hSorted
    simp only [List.mem_cons, List.mem_append, List.not_mem_nil, or_false] at hMem
    rcases hMem with rfl | hMem | rfl
    · exact le_max_left _ _
    · exact (hSorted.2.2 s hMem last List.mem_cons_self).le.trans (le_max_right _ _)
    · exact le_max_right _ _

/-- The clients' sockets are ones that the server opened. -/
def opening (host : Host) : Discipline host .select where
  may _ _ := True
  starting l past := past.head? = some ⟨.socket, l⟩
  holds l clientSockets past := past.head? = some ⟨.socket, l⟩ ∧
    ∀ s, (clientSockets.find? s).isSome → Opens s past
  entering l s clientSockets past := past.head? = some ⟨.socket, l⟩ ∧
    ∀ other, (clientSockets.find? other).isSome ∨ other = s → Opens other past
  start := ⟨trivial, fun _ => rfl⟩
  startingIdle h _ := ⟨trivial, fun _ => by simp [h]⟩
  started h := ⟨h, nofun⟩
  polls := nofun
  idle h _ := ⟨trivial, fun _ => ⟨by simp [h.1], fun s hs => (h.2 s hs).append _⟩⟩
  accept := by
    intro l clientSockets past h
    refine ⟨trivial, fun s => ⟨fun _ => ?_, fun hPos => ?_⟩⟩
    · exact ⟨by simp [h.1], fun s hs => (h.2 s hs).append _⟩
    · refine ⟨by simp [h.1], fun other hOther => ?_⟩
      rcases hOther with hOther | rfl
      · exact (h.2 other hOther).append _
      · exact ⟨⟨.accept l, other⟩, by simp, if_pos hPos⟩
  enteringIdle h _ := ⟨trivial, fun _ => ⟨by simp [h.1], fun s hs => (h.2 s hs).append _⟩⟩
  enter := by
    intro l s clientSockets past h
    refine ⟨h.1, fun other hOther => h.2 other ?_⟩
    by_cases hEq : other = s
    · exact .inr hEq
    · rw [SortedMap.find?_emplace_of_ne hEq] at hOther
      exact .inl hOther
  refuse h := ⟨trivial, by simp [h.1], fun s hs => (h.2 s (.inl hs)).append _⟩
  drop := by
    intro l s clientSockets past h
    refine ⟨trivial, by simp [h.1], fun other hOther => (h.2 other ?_).append _⟩
    by_cases hEq : other = s
    · simp [hEq] at hOther
    · rwa [SortedMap.find?_erase_of_ne hEq] at hOther
  recv _ h _ _ := ⟨trivial, fun _ _ => ⟨by simp [h.1], fun s hs => (h.2 s hs).append _⟩⟩
  feed := by
    intro l s clientSockets past client size byte data h _ hFind
    have hHead {e : Σ o : Request, o.Answer} {past : ServerTrace}
        (hHead : past.head? = some ⟨.socket, l⟩) : (past ++ [e]).head? = some ⟨.socket, l⟩ := by
      simp [hHead]
    refine ⟨trivial, ?_⟩
    split
    · trivial
    · split
      · refine ⟨trivial, hHead (hHead (hHead h.1)), fun other hOther => ?_⟩
        by_cases hEq : other = s
        · simp [hEq] at hOther
        · rw [SortedMap.find?_erase_of_ne hEq] at hOther
          exact (((h.2 other hOther).append _).append _).append _
      · refine ⟨hHead (hHead h.1), fun other hOther => ?_⟩
        refine ((h.2 other ?_).append _).append _
        by_cases hEq : other = s
        · rw [hEq, hFind]
          rfl
        · rwa [SortedMap.find?_insert_of_ne hEq] at hOther

/-- While there is room below `FD_SETSIZE` when a socket is opened, the descriptor sets are large
enough. -/
theorem inSets_of_hasRoom {host : Host} {port : Int} {passes : Nat} {t : ServerTrace}
    {clientSockets : Clients} (taken : ServerTrace → Set Int)
    (hRun : Reaches (runServer host port passes) t (.done (some clientSockets)))
    (hLowest : Always (Lowest taken) t) (hRoom : Always (HasRoom taken) t) :
    ∃ l, t.head? = some ⟨.socket, l⟩ ∧ InSets l clientSockets := by
  have hBound {s : Socket} (h : Opens s t) : s < FD_SETSIZE := by
    obtain ⟨e, hMem, he⟩ := h
    obtain ⟨past, hLow, hFree⟩ := (hLowest.and hRoom).of_mem hMem
    obtain ⟨n, hn, hLt⟩ := hFree s he
    exact ((hLow s he).2 n hn).trans_lt hLt
  obtain ⟨l, hHead, hOpens⟩ := (runServer_spec (opening host) port passes).reaches hRun
  rw [List.nil_append] at hHead hOpens
  refine ⟨l, hHead, fun s hMem => ?_, le_getMaxId l clientSockets⟩
  rcases List.mem_cons.mp hMem with rfl | hMem
  · by_cases hPos : 0 ≤ s
    · exact hBound ⟨_, List.mem_of_head? hHead, if_pos hPos⟩
    · exact (Int.not_le.mp hPos).trans (by decide)
  · exact hBound (hOpens s (SortedMap.find?_isSome.mpr hMem))

/-- The clients of `n` connections that were accepted one after the other. -/
def crowd : Nat → Clients
  | 0 => .empty
  | n + 1 => (crowd n).emplace (4 + n) .new

theorem mem_crowd {n : Nat} {s : Int} :
    s ∈ (crowd n).entries.map (·.1) ↔ 4 ≤ s ∧ s < 4 + n := by
  rw [← SortedMap.find?_isSome]
  induction n with
  | zero => simp [crowd]
  | succ n ih =>
    rw [crowd]
    by_cases hEq : s = 4 + n
    · simp [hEq, SortedMap.find?_emplace_isSome]
    · rw [SortedMap.find?_emplace_of_ne hEq, ih]
      omega

theorem FD_SET_inside {sockets : List Int} (h : ∀ s ∈ sockets, 0 ≤ s ∧ s < FD_SETSIZE) :
    FD_SET sockets = pure () := by
  induction sockets with
  | nil => rfl
  | cons s sockets ih =>
    rw [FD_SET, if_pos (h s List.mem_cons_self), ih fun s hs => h s (List.mem_cons_of_mem _ hs)]

theorem FD_SET_outside {sockets : List Socket} {s : Socket} (hMem : s ∈ sockets)
    (hs : ¬s < FD_SETSIZE) : FD_SET sockets = terminate .fault := by
  induction sockets with
  | nil => cases hMem
  | cons other sockets ih =>
    rw [FD_SET]
    split
    next hIn => exact ih ((List.mem_cons.mp hMem).resolve_left fun hEq => hs (hEq ▸ hIn.2))
    next => rfl

/-- A pass in which a socket is too large ends with a write outside of the set. -/
theorem pass_outside (host : Host) {l s : Socket} {clientSockets : Clients}
    (hMem : s ∈ passed l clientSockets) (hs : ¬s < FD_SETSIZE) :
    (pass host l clientSockets).next? = some (.terminate .fault) := by
  have hSet : FD_SET (l :: clientSockets.entries.map (·.1)) = terminate .fault :=
    FD_SET_outside hMem hs
  unfold pass
  simp only [hSet]
  rfl

theorem serveClients_idle {host : Host} {fds sockets : List Socket} (h : ∀ s ∈ sockets, s ∉ fds)
    (clientSockets : Clients) :
    serveClients host fds sockets clientSockets = pure clientSockets := by
  induction sockets with
  | nil => rfl
  | cons s sockets ih =>
    have hRest := ih fun s hs => h s (List.mem_cons_of_mem _ hs)
    rw [serveClients, if_neg (h s List.mem_cons_self), hRest]

/-- The calls of a pass in which one more connection is accepted. -/
def joining (n : Nat) : ServerTrace :=
  [⟨.select (getMaxId 3 ((crowd n).entries.map (·.1)) + 1) (passed 3 (crowd n)), (1, [3])⟩,
    ⟨.accept 3, (4 + n : Int)⟩, ⟨.setNonblock (4 + n), (0 : Int)⟩]

theorem acceptClient_reaches {l s : Int} (hs : 0 ≤ s) :
    Reaches (acceptClient l) [⟨.accept l, s⟩, ⟨.setNonblock s, (0 : Int)⟩] (.done (some s)) := by
  refine .call ?_
  change Reaches (if s < 0 then _ else _) _ _
  rw [if_neg (Int.not_lt.mpr hs)]
  exact .call .here

theorem pass_joining (host : Host) {n : Nat} (hn : n ≤ 1020) :
    Reaches (pass host 3 (crowd n)) (joining n) (.done (.inl (crowd (n + 1)))) := by
  have hInside : ∀ s ∈ (3 : Int) :: (crowd n).entries.map (·.1), 0 ≤ s ∧ s < FD_SETSIZE := by
    intro s hMem
    rw [List.mem_cons, mem_crowd] at hMem
    unfold FD_SETSIZE
    omega
  have hIdle : ∀ s ∈ (crowd n).entries.map (·.1), s ∉ [(3 : Int)] := by
    intro s hMem
    rw [mem_crowd] at hMem
    rw [List.mem_singleton]
    omega
  unfold pass
  simp only [FD_SET_inside hInside, pure_bind]
  refine .call ?_
  change Reaches (serveClients host [3] ((crowd n).entries.map (·.1)) (crowd n) >>= _) _ _
  rw [serveClients_idle hIdle, pure_bind]
  exact (acceptClient_reaches (by omega)).bind .here

def joins : Nat → Nat → ServerTrace
  | _, 0 => []
  | n, m + 1 => joining n ++ joins (n + 1) m

theorem loop_joins (host : Host) {n m : Nat} (h : n + m ≤ 1021) :
    Reaches (Calls.loop (pass host 3) m (crowd n)) (joins n m) (.done (.inl (crowd (n + m)))) := by
  induction m generalizing n with
  | zero => exact .here
  | succ m ih =>
    have hRest := ih (n := n + 1) (by omega)
    rw [Nat.add_right_comm] at hRest
    exact (pass_joining host (by omega)).bind hRest

/-- The calls of the set-up after `socket`, when none fails. -/
def settingUp : ServerTrace := [⟨.setReuseAddr 3, (0 : Int)⟩, ⟨.setTcpNodelay 3, (0 : Int)⟩,
  ⟨.setNonblock 3, (0 : Int)⟩, ⟨.bind 3 9988, (0 : Int)⟩, ⟨.listen 3 4096, (0 : Int)⟩]

/-- A run in which `n` connections are accepted and none ends. -/
def crowdTrace (n : Nat) : ServerTrace :=
  ⟨.socket, (3 : Int)⟩ :: settingUp ++ joins 0 n

theorem runServer_crowd (host : Host) {n : Nat} (hn : n ≤ 1021) :
    Reaches (runServer host 9988 n) (crowdTrace n) (.done (some (crowd n))) := by
  have hLoop := loop_joins host (n := 0) (m := n) (by omega)
  rw [Nat.zero_add] at hLoop
  refine .call (.call (.call (.call (.call (.call ?_)))))
  rw [← List.append_nil (joins 0 n)]
  exact hLoop.bind .here

/-- The standard streams are open all the time. -/
def streams : ServerTrace → Set Int := fun _ => {n | n < 3}

/-- The listening socket and those of `n` clients are open. -/
def Crowded (n : Nat) (past : ServerTrace) : Prop :=
  ∀ s : Int, balance s past = if 3 ≤ s ∧ s < 4 + n then 1 else 0

theorem lowest_of_none {taken : ServerTrace → Set Int} {past : ServerTrace}
    {e : Σ o : Request, o.Answer} (he : opened e = none) : Lowest taken past e := by
  intro s hs
  rw [he] at hs
  cases hs

theorem Crowded.quiet {n : Nat} {past : ServerTrace} (h : Crowded n past)
    {e : Σ o : Request, o.Answer} (hOpened : opened e = none) (hClosed : closed e = none) :
    Crowded n (past ++ [e]) := by
  intro s
  simp [balance_append, hOpened, hClosed, h s]

theorem opened_accept {l s : Int} (hs : 0 ≤ s) : opened ⟨.accept l, s⟩ = some s := if_pos hs

theorem Crowded.accepted {n : Nat} {past : ServerTrace} (h : Crowded n past) :
    Crowded (n + 1) (past ++ [⟨.accept 3, (4 + n : Int)⟩]) := by
  intro s
  have hClosed : closed ⟨.accept 3, (4 + n : Int)⟩ = none := rfl
  rw [balance_append, h s, opened_accept (by omega), hClosed]
  simp only [Option.some.injEq, reduceCtorEq, if_false, Int.sub_zero]
  push_cast
  split_ifs <;> omega

theorem Crowded.free {n : Nat} {past : ServerTrace} (h : Crowded n past) {s : Int} :
    Free (streams past) past s ↔ 4 + n ≤ s := by
  simp only [Free, streams, h s, Set.mem_ofPred_eq]
  grind

theorem Crowded.joining {n : Nat} {past : ServerTrace} (h : Crowded n past)
    (hLowest : Always (Lowest streams) past) :
    Always (Lowest streams) (past ++ joining n) ∧ Crowded (n + 1) (past ++ joining n) := by
  rw [Select.joining, List.append_cons, List.append_cons]
  have hSelected := hLowest.append (lowest_of_none (e := ⟨.select (getMaxId 3
    ((crowd n).entries.map (·.1)) + 1) (passed 3 (crowd n)), (1, [3])⟩) rfl)
  have hCrowded := h.quiet (e := ⟨.select (getMaxId 3
    ((crowd n).entries.map (·.1)) + 1) (passed 3 (crowd n)), (1, [3])⟩) rfl rfl
  refine ⟨(hSelected.append fun s hs => ?_).append (lowest_of_none rfl),
    hCrowded.accepted.quiet rfl rfl⟩
  obtain rfl := Option.some.inj ((opened_accept (by omega)).symm.trans hs)
  exact ⟨hCrowded.free.mpr le_rfl, fun s hFree => hCrowded.free.mp hFree⟩

theorem Crowded.joins {n m : Nat} {past : ServerTrace} (h : Crowded n past)
    (hLowest : Always (Lowest streams) past) : Always (Lowest streams) (past ++ joins n m) := by
  induction m generalizing n past with
  | zero => rwa [Select.joins, List.append_nil]
  | succ m ih =>
    obtain ⟨hLowest', h'⟩ := h.joining hLowest
    rw [Select.joins, ← List.append_assoc]
    exact ih h' hLowest'

theorem Crowded.quiets {n : Nat} {past more : ServerTrace} (h : Crowded n past)
    (hLowest : Always (Lowest streams) past)
    (hQuiet : ∀ e ∈ more, opened e = none ∧ closed e = none) :
    Crowded n (past ++ more) ∧ Always (Lowest streams) (past ++ more) := by
  induction more generalizing past with
  | nil => exact (List.append_nil past).symm ▸ ⟨h, hLowest⟩
  | cons e more ih =>
    obtain ⟨⟨hOpened, hClosed⟩, hMore⟩ := List.forall_mem_cons.mp hQuiet
    rw [List.append_cons]
    exact ih (h.quiet hOpened hClosed) (hLowest.append (lowest_of_none hOpened)) hMore

theorem crowdTrace_lowest (n : Nat) : Always (Lowest streams) (crowdTrace n) := by
  have hSocket : Crowded 0 [⟨.socket, (3 : Int)⟩] := by
    intro s
    have hOpened : opened ⟨.socket, (3 : Int)⟩ = some 3 := rfl
    have hClosed : closed ⟨.socket, (3 : Int)⟩ = none := rfl
    simp only [balance, List.filterMap_cons, hOpened, hClosed, List.filterMap_nil,
      List.count_singleton, List.count_nil]
    grind
  have hLowest : Always (Lowest streams) ([] ++ [⟨.socket, (3 : Int)⟩]) := by
    refine Always.append (fun _ h => absurd h (Nat.not_lt_zero _)) fun s hs => ?_
    obtain rfl : 3 = s := Option.some.inj hs
    simp [Free, streams, balance]
  have hQuiet : ∀ e ∈ settingUp, opened e = none ∧ closed e = none := by
    simp [settingUp, opened, closed]
  obtain ⟨hCrowded, hLowest⟩ := hSocket.quiets hLowest hQuiet
  exact hCrowded.joins hLowest

/-- With two connections, the descriptor sets are large enough. -/
theorem inSets_of_hasRoom_crowd :
    ∃ l, (crowdTrace 2).head? = some ⟨.socket, l⟩ ∧ InSets l (crowd 2) := by
  have hBound : ∀ e ∈ crowdTrace 2, ∀ s ∈ opened e, s < FD_SETSIZE := by decide
  refine inSets_of_hasRoom streams (runServer_crowd byteHost (by decide)) (crowdTrace_lowest 2)
    ((crowdTrace_lowest 2).imp fun past e hMem hLow s hs => ?_)
  exact ⟨s, (hLow s hs).1, hBound e hMem s hs⟩

/-- The connection with the number 1024 is accepted, and written outside of the set in the next
pass. -/
theorem not_inSets :
    Reaches (runServer byteHost 9988 1021) (crowdTrace 1021) (.done (some (crowd 1021))) ∧
      Always (Lowest streams) (crowdTrace 1021) ∧ ¬InSets 3 (crowd 1021) ∧
      (pass byteHost 3 (crowd 1021)).next? = some (.terminate .fault) := by
  have hMem : (1024 : Int) ∈ (crowd 1021).entries.map (·.1) := mem_crowd.mpr (by decide)
  have hPassed : (1024 : Int) ∈ passed 3 (crowd 1021) := List.mem_cons_of_mem 3 hMem
  refine ⟨runServer_crowd byteHost le_rfl, crowdTrace_lowest 1021, fun h => ?_, ?_⟩
  · exact absurd (h.size 1024 hPassed) (by decide)
  · exact pass_outside byteHost hPassed (by decide)

end Select
end LogSocket
