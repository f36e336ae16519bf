import CTemplate.Library.ListSet
import CTemplate.Networking.EventLoop.System

/-!
# The steps of the event loop

`LoopStep` lists what a step of the thread can do, one constructor for each way through
the code, for a loop whose arrays hold at least `cap` elements.  Every step keeps the
arrays so, and everything else about runs is shown by cases on `LoopStep`.
-/

namespace CTemplate

/-! ### Arrays -/

/-- Both arrays hold at least `cap` elements, `len` of which are in use. -/
structure EventLoop.Arrays (loop : EventLoop) : Prop where
  len_le : loop.len ≤ loop.cap
  cap_le_entries : loop.cap ≤ loop.entries.length
  cap_le_pollfds : loop.cap ≤ loop.pollfds.length

/-- The loop differs from `old` only in room that is not in use. -/
structure EventLoop.Extends (loop old : EventLoop) : Prop where
  arrays : loop.Arrays
  len_eq : loop.len = old.len
  dispatching_eq : loop.dispatching = old.dispatching
  entries_eq : ∀ i < old.len, loop.entries[i]? = old.entries[i]?
  pollfds_eq : ∀ i < old.len, loop.pollfds[i]? = old.pollfds[i]?

variable {loop loop' : EventLoop}

theorem EventLoop.Arrays.extends_self (h : loop.Arrays) :
  loop.Extends loop
  where
  arrays := h
  len_eq := rfl
  dispatching_eq := rfl
  entries_eq := fun _ _ => rfl
  pollfds_eq := fun _ _ => rfl

/-- The registrations in use by their indices. -/
theorem EventLoop.getElem?_active (loop : EventLoop) (i : ℕ) :
  loop.active[i]? = if i < loop.len then loop.entries[i]? else none
  := List.getElem?_take

theorem EventLoop.Extends.active_eq (h : loop'.Extends loop) :
  loop'.active = loop.active
  := by
  apply List.ext_getElem?
  intro i
  rw [EventLoop.getElem?_active, EventLoop.getElem?_active, h.len_eq]
  split
  · rename_i hi
    apply h.entries_eq i hi
  · rfl

/-- The number of registrations in use, when the array holds them. -/
theorem EventLoop.Arrays.length_active (h : loop.Arrays) :
  loop.active.length = loop.len
  := by
  have := h.len_le
  have := h.cap_le_entries
  rw [EventLoop.active, List.length_take]
  omega

/-- Larger arrays for more registrations. -/
theorem EventLoop.Arrays.extends_reallocated
    (h : loop.Arrays) {newCap : ℕ} (hlt : loop.cap < newCap) (junk : ℕ → EventEntry) :
  EventLoop.Extends { loop with entries := reallocated loop.entries newCap junk } loop
    ∧ ∀ junk', EventLoop.Extends
      { loop with
        entries := reallocated loop.entries newCap junk
        pollfds := reallocated loop.pollfds newCap junk'
        cap := newCap } loop
  := by
  obtain ⟨hlen, hentries, hpollfds⟩ := h
  have hkept : ∀ i < loop.len,
      (reallocated loop.entries newCap junk)[i]? = loop.entries[i]? := by
    intro i hi
    apply getElem?_reallocated <;> omega
  constructor
  · exact
      { arrays :=
          { len_le := hlen
            cap_le_entries := by
              rw [length_reallocated]
              apply Nat.le_of_lt hlt
            cap_le_pollfds := hpollfds }
        len_eq := rfl
        dispatching_eq := rfl
        entries_eq := hkept
        pollfds_eq := fun _ _ => rfl }
  · intro junk'
    exact
      { arrays :=
          { len_le := Nat.le_trans hlen (Nat.le_of_lt hlt)
            cap_le_entries := by
              rw [length_reallocated]
            cap_le_pollfds := by
              rw [length_reallocated] }
        len_eq := rfl
        dispatching_eq := rfl
        entries_eq := hkept
        pollfds_eq := by
          intro i hi
          apply getElem?_reallocated <;> omega }

/-- Making room, which may fail with either `realloc`. -/
theorem eventLoopGrow_cases (h : loop.Arrays) (reallocs : EventReallocs) :
  ∃ loop' code, eventLoopGrow loop reallocs = (loop', code) ∧ loop'.Extends loop
    ∧ ((code = .ok ∧ loop'.len < loop'.cap) ∨ code = .nomem ∨ code = .overflow)
  := by
  have hlen := h.len_le
  unfold eventLoopGrow
  split
  · rename_i hfull
    split
    · exact ⟨_, _, rfl, h.extends_self, Or.inr (Or.inr rfl)⟩
    · simp only
      generalize hnew : (if loop.cap = 0 then 8 else loop.cap * 2) = newCap
      have hlt : loop.cap < newCap := by
        rw [← hnew]
        split <;> omega
      split
      · exact ⟨_, _, rfl, h.extends_self, Or.inr (Or.inr rfl)⟩
      · cases reallocs.entries with
        | none => exact ⟨_, _, rfl, h.extends_self, Or.inr (Or.inl rfl)⟩
        | some junk =>
            obtain ⟨hone, hboth⟩ := h.extends_reallocated hlt junk
            cases reallocs.pollfds with
            | none => exact ⟨_, _, rfl, hone, Or.inr (Or.inl rfl)⟩
            | some junk' =>
                have hroom : loop.len < newCap := Nat.lt_of_le_of_lt hlen hlt
                exact ⟨_, _, rfl, hboth junk', Or.inl ⟨rfl, hroom⟩⟩
  · have hroom : loop.len < loop.cap := by omega
    exact ⟨_, _, rfl, h.extends_self, Or.inl ⟨rfl, hroom⟩⟩

/-! ### Finding registrations -/

/-- The index that `find_index` finds. -/
theorem findIndex_eq_some {fd : ℤ} {i : ℕ} (h : findIndex loop fd = some i) :
  i < loop.len ∧ ∃ entry, loop.entries[i]? = some entry ∧ entry.fd = fd
  := by
  obtain ⟨hi, hfd, -⟩ := List.findIdx?_eq_some_iff_getElem.mp h
  have hget := loop.getElem?_active i
  rw [List.getElem?_eq_getElem hi] at hget
  split at hget
  · rename_i hlt
    exact ⟨hlt, _, hget.symm, by simpa using hfd⟩
  · cases hget

/-- The descriptor is not found just when no registration in use has it. -/
theorem findIndex_eq_none {fd : ℤ} :
  findIndex loop fd = none ↔ ∀ entry ∈ loop.active, entry.fd ≠ fd
  := by
  rw [findIndex, List.findIdx?_eq_none_iff]
  simp

/-! ### Compacting -/

/-- The loop of `compact`, after it has moved the registrations `front` to the front and
left `gap` behind, with `todo` to go. -/
theorem compactFrom_eq (rest : List EventEntry) :
  ∀ (todo front gap : List EventEntry), ∃ junk,
    compactFrom todo.length (front.length + gap.length) front.length
        (front ++ gap ++ todo ++ rest)
      = (front ++ (todo.filter fun entry => entry.fd ≥ 0) ++ junk,
          front.length + (todo.filter fun entry => entry.fd ≥ 0).length)
      ∧ (todo.filter fun entry => entry.fd ≥ 0).length + junk.length
        = gap.length + todo.length + rest.length
  := by
  intro todo
  induction todo with
  | nil =>
      intro front gap
      use gap ++ rest
      simp [compactFrom]
  | cons e todo ih =>
      intro front gap
      have hget : (front ++ gap ++ e :: todo ++ rest)[front.length + gap.length]? = some e := by
        rw [← List.length_append, List.append_assoc, List.getElem?_append_right (Nat.le_refl _)]
        simp
      simp only [List.length_cons, compactFrom, hget]
      by_cases he : e.fd ≥ 0
      · -- the first element of the gap, or `e` itself, is overwritten by `e`
        obtain ⟨g, gap', hgap⟩ : ∃ g gap', gap ++ [e] = g :: gap' := by
          cases gap with
          | nil => exact ⟨e, [], rfl⟩
          | cons g gap => exact ⟨g, gap ++ [e], rfl⟩
        have hlength := congrArg List.length hgap
        simp only [List.length_append, List.length_cons, List.length_nil] at hlength
        have hset : (front ++ gap ++ e :: todo ++ rest).set front.length e
            = (front ++ [e]) ++ gap' ++ todo ++ rest := by
          have hsplit : front ++ gap ++ e :: todo ++ rest
              = front ++ (g :: gap' ++ todo ++ rest) := by
            rw [← hgap]
            simp
          rw [hsplit, List.set_append_right _ _ (Nat.le_refl _), Nat.sub_self]
          simp
        obtain ⟨junk, hcompact, hjunk⟩ := ih (front ++ [e]) gap'
        have hi : front.length + gap.length + 1 = (front ++ [e]).length + gap'.length := by
          rw [List.length_append, List.length_singleton]
          omega
        have hkept : front.length + 1 = (front ++ [e]).length := by
          rw [List.length_append, List.length_singleton]
        use junk
        rw [if_pos he, hset, hi, hkept, hcompact, List.filter_cons_of_pos (by simpa using he)]
        constructor
        · simp [Nat.add_assoc, Nat.add_comm]
        · rw [List.length_cons]
          omega
      · obtain ⟨junk, hcompact, hjunk⟩ := ih front (gap ++ [e])
        have hi : front.length + gap.length + 1 = front.length + (gap ++ [e]).length := by
          rw [List.length_append, List.length_singleton, Nat.add_assoc]
        have hentries : front ++ gap ++ e :: todo ++ rest
            = front ++ (gap ++ [e]) ++ todo ++ rest := by simp
        use junk
        rw [if_neg he, hentries, hi, hcompact, List.filter_cons_of_neg (by simpa using he)]
        constructor
        · rfl
        · rw [List.length_append, List.length_singleton] at hjunk
          omega

/-- `compact` keeps the registrations that are not removed. -/
theorem compact_cases (h : loop.Arrays) :
  (compact loop).active = loop.active.filter (fun entry => entry.fd ≥ 0)
    ∧ (compact loop).Arrays ∧ (compact loop).dispatching = loop.dispatching
  := by
  obtain ⟨junk, hcompact, hjunk⟩ := compactFrom_eq (loop.entries.drop loop.len) loop.active [] []
  have hentries : loop.active ++ loop.entries.drop loop.len = loop.entries :=
    List.take_append_drop _ _
  have hlength := congrArg List.length hentries
  have hfilter := List.length_filter_le (fun entry : EventEntry => entry.fd ≥ 0) loop.active
  have hlen := h.length_active
  simp only [List.nil_append, List.length_nil, Nat.add_zero, Nat.zero_add, hentries, hlen]
    at hcompact hjunk
  rw [List.length_append, hlen] at hlength
  rw [hlen] at hfilter
  have hle := h.len_le
  have hcap := h.cap_le_entries
  simp only [compact, hcompact]
  refine ⟨?_, ?_, trivial⟩
  · exact List.take_left
  · exact
      { len_le := by
          simp only
          omega
        cap_le_entries := by
          rw [List.length_append]
          simp only
          omega
        cap_le_pollfds := h.cap_le_pollfds }

/-! ### Filling in the structures for `poll` -/

/-- The structures that `event_loop_poll_once` fills in. -/
theorem fillPollfds_cases (h : loop.Arrays) :
  (fillPollfds loop).length = loop.pollfds.length
    ∧ ∀ i entry, i < loop.len → loop.entries[i]? = some entry →
      (fillPollfds loop)[i]? = some ⟨entry.fd, interestToPoll entry.events, 0⟩
  := by
  have hlen := h.len_le
  have hcap := h.cap_le_pollfds
  unfold fillPollfds
  generalize loop.len = n at hlen
  induction n with
  | zero => exact ⟨rfl, fun i entry hi => absurd hi (Nat.not_lt_zero i)⟩
  | succ n ih =>
      obtain ⟨hlength, hget⟩ := ih (by omega)
      rw [List.range_succ, List.foldl_append, List.foldl_cons, List.foldl_nil]
      split
      · rename_i hnone
        use hlength
        intro i entry hi hentry
        rcases Nat.lt_succ_iff_lt_or_eq.mp hi with hlt | rfl
        · apply hget i entry hlt hentry
        · rw [hnone] at hentry
          cases hentry
      · rename_i entry' hentry'
        constructor
        · rw [List.length_set, hlength]
        · intro i entry hi hentry
          rcases Nat.lt_succ_iff_lt_or_eq.mp hi with hlt | rfl
          · rw [List.getElem?_set_ne (by omega), hget i entry hlt hentry]
          · rw [hentry'] at hentry
            cases hentry
            rw [List.getElem?_set_self (by omega)]

/-- The results that `poll` stored. -/
theorem getElem?_storeRevents (pollfds : List PollFd) (revents : List (BitVec 16)) (i : ℕ) :
  (storeRevents pollfds revents)[i]?
    = pollfds[i]?.map fun p => { p with revents := (revents[i]?).getD p.revents }
  := List.getElem?_mapIdx

theorem length_storeRevents (pollfds : List PollFd) (revents : List (BitVec 16)) :
  (storeRevents pollfds revents).length = pollfds.length
  := List.length_mapIdx

/-! ### Steps -/

/-- The loop with its registration `i` replaced. -/
def EventLoop.replaced (loop : EventLoop) (i : ℕ) (entry : EventEntry) : EventLoop :=
  { loop with entries := loop.entries.set i entry }

/-- The steps of the thread, one constructor for each way through the code. -/
inductive LoopStep (s : LoopSystem) : Option LoopEvent → LoopSystem → Prop where
  | addFailed {fd : ℤ} {events : BitVec 32} {cb userData : Ptr} {code : ErrorCode}
      {loop : EventLoop} (may : s.point.mayCall = true) (grown : loop.Extends s.loop)
      (failed : code ≠ .ok)
      (invalid : code = .invalidArg ↔
        fd < 0 ∨ cb = nullPtr ∨ events = 0 ∨ findIndex s.loop fd ≠ none) :
      LoopStep s (some (.add fd events cb userData code)) { s with loop }
  | addOk {fd : ℤ} {events : BitVec 32} {cb userData : Ptr} {loop : EventLoop}
      (may : s.point.mayCall = true) (grown : loop.Extends s.loop) (room : loop.len < loop.cap)
      (valid : ¬ (fd < 0 ∨ cb = nullPtr ∨ events = 0)) (absent : findIndex s.loop fd = none) :
      LoopStep s (some (.add fd events cb userData .ok))
        { s with
          loop := { loop with
            entries := loop.entries.set loop.len { fd, events, cb, userData }
            len := loop.len + 1 } }
  | modFailed {fd : ℤ} {events : BitVec 32} {code : ErrorCode} (may : s.point.mayCall = true)
      (failed : code ≠ .ok) (absent : code = .notFound ↔
        ¬ (fd < 0 ∨ events = 0) ∧ findIndex s.loop fd = none) :
      LoopStep s (some (.mod fd events code)) s
  | modOk {fd : ℤ} {events : BitVec 32} {i : ℕ} {entry : EventEntry}
      (may : s.point.mayCall = true) (valid : ¬ (fd < 0 ∨ events = 0)) (lt : i < s.loop.len)
      (found : s.loop.entries[i]? = some entry) (same : entry.fd = fd) :
      LoopStep s (some (.mod fd events .ok))
        { s with loop := s.loop.replaced i { entry with events } }
  | removeFailed {fd : ℤ} {code : ErrorCode} (may : s.point.mayCall = true)
      (failed : code ≠ .ok) (absent : code = .notFound ↔ ¬ fd < 0 ∧ findIndex s.loop fd = none) :
      LoopStep s (some (.remove fd code)) s
  | tombstone {fd : ℤ} {i : ℕ} {entry : EventEntry} (may : s.point.mayCall = true)
      (valid : ¬ fd < 0) (dispatching : s.loop.dispatching = true) (lt : i < s.loop.len)
      (found : s.loop.entries[i]? = some entry) (same : entry.fd = fd) :
      LoopStep s (some (.remove fd .ok))
        { s with loop := s.loop.replaced i { entry with fd := -1 } }
  | swap {fd : ℤ} {i : ℕ} {entry last : EventEntry} (may : s.point.mayCall = true)
      (valid : ¬ fd < 0) (dispatching : s.loop.dispatching = false) (lt : i < s.loop.len)
      (found : s.loop.entries[i]? = some entry) (same : entry.fd = fd)
      (atLast : s.loop.entries[s.loop.len - 1]? = some last) :
      LoopStep s (some (.remove fd .ok))
        { s with loop := { s.loop.replaced i last with len := s.loop.len - 1 } }
  | stop (may : s.point.mayCall = true) :
      LoopStep s (some .stop) { s with loop := { s.loop with running := false } }
  | count (may : s.point.mayCall = true) : LoopStep s (some (.count s.loop.len)) s
  | idle {code : ErrorCode} {pollfds : List PollFd} (outside : s.point = .outside)
      (length : pollfds.length = s.loop.pollfds.length) :
      LoopStep s (some (.idle code)) { s with loop := { s.loop with pollfds } }
  | polled {revents : List (BitVec 16)} (outside : s.point = .outside)
      (length : revents.length = s.loop.len) :
      LoopStep s
        (some (.polled s.loop.active ((fillPollfds s.loop).take s.loop.len) revents))
        ⟨{ s.loop with
            pollfds := storeRevents (fillPollfds s.loop) revents
            dispatching := true }, .walking s.loop.len 0⟩
  | skip {n i : ℕ} {entry : EventEntry} {p : PollFd} (walking : s.point = .walking n i)
      (lt : i < n) (hentry : s.loop.entries[i]? = some entry)
      (hp : s.loop.pollfds[i]? = some p) (nothing : pollTurn entry p = none) :
      LoopStep s (some (.turn i none)) { s with point := .walking n (i + 1) }
  | invoke {n i : ℕ} {entry : EventEntry} {p : PollFd} {invocation : Invocation}
      (walking : s.point = .walking n i) (lt : i < n)
      (hentry : s.loop.entries[i]? = some entry) (hp : s.loop.pollfds[i]? = some p)
      (invokes : pollTurn entry p = some invocation) :
      LoopStep s (some (.turn i invocation)) { s with point := .inCallback n i }
  | roundDone {n i : ℕ} (walking : s.point = .walking n i) (last : n ≤ i) :
      LoopStep s (some .roundDone)
        ⟨compact { s.loop with dispatching := false }, .outside⟩
  | callbackReturns {n i : ℕ} (inCallback : s.point = .inCallback n i) :
      LoopStep s none { s with point := .walking n (i + 1) }

variable {s s' : LoopSystem} {e : Option LoopEvent}

theorem LoopStep.of_add
    (h : s.loop.Arrays) (may : s.point.mayCall = true) (fd : ℤ) (events : BitVec 32)
    (cb userData : Ptr) (reallocs : EventReallocs) {code : ErrorCode}
    (heq : eventLoopAdd s.loop fd events cb userData reallocs = (loop', code)) :
  LoopStep s (some (.add fd events cb userData code)) { s with loop := loop' }
  := by
  unfold eventLoopAdd at heq
  by_cases hargs : fd < 0 ∨ cb = nullPtr ∨ events = 0
  · rw [if_pos hargs] at heq
    cases heq
    apply LoopStep.addFailed may h.extends_self (by simp)
    simp only [true_iff]
    rcases hargs with hfd | hcb | hevents
    · exact Or.inl hfd
    · exact Or.inr (Or.inl hcb)
    · exact Or.inr (Or.inr (Or.inl hevents))
  · rw [if_neg hargs] at heq
    cases hfind : findIndex s.loop fd with
    | some i =>
        rw [hfind] at heq
        cases heq
        apply LoopStep.addFailed may h.extends_self (by simp)
        simp [hfind]
    | none =>
        rw [hfind] at heq
        simp only [Option.isSome_none, Bool.false_eq_true, if_false] at heq
        obtain ⟨loop₁, code₁, hgrow, hextends, hcode⟩ := eventLoopGrow_cases h reallocs
        rw [hgrow] at heq
        have hvalid : ¬ (fd < 0 ∨ cb = nullPtr ∨ events = 0 ∨ findIndex s.loop fd ≠ none) := by
          simpa [hfind] using hargs
        rcases hcode with ⟨rfl, hroom⟩ | rfl | rfl
        · cases heq
          apply LoopStep.addOk may hextends hroom hargs hfind
        · cases heq
          apply LoopStep.addFailed may hextends (by simp)
          simpa using hvalid
        · cases heq
          apply LoopStep.addFailed may hextends (by simp)
          simpa using hvalid

theorem LoopStep.of_mod
    (may : s.point.mayCall = true) (fd : ℤ) (events : BitVec 32) {code : ErrorCode}
    (heq : eventLoopMod s.loop fd events = (loop', code)) :
  LoopStep s (some (.mod fd events code)) { s with loop := loop' }
  := by
  unfold eventLoopMod at heq
  by_cases hargs : fd < 0 ∨ events = 0
  · rw [if_pos hargs] at heq
    cases heq
    apply LoopStep.modFailed may (by simp)
    constructor
    · intro hcode
      cases hcode
    · intro hvalid
      exact absurd hargs hvalid.1
  · rw [if_neg hargs] at heq
    cases hfind : findIndex s.loop fd with
    | none =>
        rw [hfind] at heq
        cases heq
        apply LoopStep.modFailed may (by simp)
        exact ⟨fun _ => ⟨hargs, hfind⟩, fun _ => rfl⟩
    | some i =>
        rw [hfind] at heq
        cases heq
        obtain ⟨hlt, entry, hentry, hfd⟩ := findIndex_eq_some hfind
        rw [ListSet.modify_eq_set hentry]
        apply LoopStep.modOk may hargs hlt hentry hfd

theorem LoopStep.of_remove
    (h : s.loop.Arrays) (may : s.point.mayCall = true) (fd : ℤ) {code : ErrorCode}
    (heq : eventLoopRemove s.loop fd = (loop', code)) :
  LoopStep s (some (.remove fd code)) { s with loop := loop' }
  := by
  unfold eventLoopRemove at heq
  by_cases hargs : fd < 0
  · rw [if_pos hargs] at heq
    cases heq
    apply LoopStep.removeFailed may (by simp)
    simp [hargs]
  · rw [if_neg hargs] at heq
    cases hfind : findIndex s.loop fd with
    | none =>
        rw [hfind] at heq
        cases heq
        apply LoopStep.removeFailed may (by simp)
        exact ⟨fun _ => ⟨hargs, hfind⟩, fun _ => rfl⟩
    | some i =>
        rw [hfind] at heq
        obtain ⟨hlt, entry, hentry, hfd⟩ := findIndex_eq_some hfind
        by_cases hdispatching : s.loop.dispatching = true
        · simp only [if_pos hdispatching] at heq
          cases heq
          rw [ListSet.modify_eq_set hentry]
          apply LoopStep.tombstone may hargs hdispatching hlt hentry hfd
        · simp only [if_neg hdispatching] at heq
          have hlast : s.loop.len - 1 < s.loop.entries.length := by
            have := h.len_le
            have := h.cap_le_entries
            omega
          rw [List.getElem?_eq_getElem hlast] at heq
          cases heq
          apply LoopStep.swap may hargs (by simpa using hdispatching) hlt hentry hfd
            (List.getElem?_eq_getElem hlast)

theorem LoopStep.of_poll
    (h : s.loop.Arrays) (outside : s.point = .outside) {result : PollResult}
    (heq : pollOnce s result = some (s', e)) :
  LoopStep s e s'
  := by
  have hlength := (fillPollfds_cases h).1
  unfold pollOnce at heq
  split at heq
  · have hidle : ∀ code, LoopStep s (some (.idle code)) s := fun code => .idle outside rfl
    cases result with
    | failed =>
        cases heq
        apply hidle .io
    | timeout =>
        cases heq
        apply hidle .ok
    | ready revents =>
        cases heq
        apply hidle .ok
  · cases result with
    | failed =>
        cases heq
        exact .idle outside hlength
    | timeout =>
        cases heq
        exact .idle outside hlength
    | ready revents =>
        simp only at heq
        split at heq
        · rename_i hrevents
          cases heq
          exact .polled outside hrevents
        · cases heq

theorem LoopStep.of_turn (heq : loopStep s .turn = some (s', e)) :
  LoopStep s e s'
  := by
  simp only [loopStep] at heq
  split at heq
  · rename_i n i hwalking
    split at heq
    · rename_i hlt
      split at heq
      · rename_i entry p hentry hp
        cases hturn : pollTurn entry p with
        | none =>
            rw [hturn] at heq
            cases heq
            exact .skip hwalking hlt hentry hp hturn
        | some invocation =>
            rw [hturn] at heq
            cases heq
            exact .invoke hwalking hlt hentry hp hturn
      · cases heq
    · rename_i hlast
      cases heq
      exact .roundDone hwalking (Nat.le_of_not_lt hlast)
  · cases heq

/-- Every step that `loopStep` accepts is one of the steps of `LoopStep`. -/
theorem loopStep_cases
    (h : s.loop.Arrays) {a : LoopAct} (heq : loopStep s a = some (s', e)) :
  LoopStep s e s'
  := by
  cases a with
  | add fd events cb userData reallocs =>
      simp only [loopStep] at heq
      split at heq
      · rename_i hmay
        cases heq
        exact .of_add h hmay fd events cb userData reallocs rfl
      · cases heq
  | mod fd events =>
      simp only [loopStep] at heq
      split at heq
      · rename_i hmay
        cases heq
        exact .of_mod hmay fd events rfl
      · cases heq
  | remove fd =>
      simp only [loopStep] at heq
      split at heq
      · rename_i hmay
        cases heq
        exact .of_remove h hmay fd rfl
      · cases heq
  | stop =>
      simp only [loopStep] at heq
      split at heq
      · rename_i hmay
        cases heq
        exact .stop hmay
      · cases heq
  | count =>
      simp only [loopStep] at heq
      split at heq
      · rename_i hmay
        cases heq
        exact .count hmay
      · cases heq
  | poll result =>
      simp only [loopStep] at heq
      split at heq
      · rename_i houtside
        exact .of_poll h houtside heq
      · cases heq
  | turn => exact .of_turn heq
  | callbackReturns =>
      simp only [loopStep] at heq
      split at heq
      · rename_i n i hin
        cases heq
        exact .callbackReturns hin
      · cases heq

/-- Every step keeps the arrays large enough. -/
theorem LoopStep.arrays (h : s.loop.Arrays) (hstep : LoopStep s e s') :
  s'.loop.Arrays
  := by
  cases hstep with
  | addFailed _ grown => exact grown.arrays
  | addOk _ grown room =>
      exact
        { len_le := room
          cap_le_entries := by
            rw [List.length_set]
            exact grown.arrays.cap_le_entries
          cap_le_pollfds := grown.arrays.cap_le_pollfds }
  | modFailed => exact h
  | modOk =>
      exact
        { h with
          cap_le_entries := by
            rw [EventLoop.replaced, List.length_set]
            apply h.cap_le_entries }
  | removeFailed => exact h
  | tombstone =>
      exact
        { h with
          cap_le_entries := by
            rw [EventLoop.replaced, List.length_set]
            apply h.cap_le_entries }
  | swap =>
      exact
        { h with
          len_le := Nat.le_trans (Nat.sub_le _ _) h.len_le
          cap_le_entries := by
            rw [EventLoop.replaced, List.length_set]
            apply h.cap_le_entries }
  | stop => exact { h with }
  | count => exact h
  | idle _ length =>
      exact
        { h with
          cap_le_pollfds := by
            rw [length]
            apply h.cap_le_pollfds }
  | polled =>
      exact
        { h with
          cap_le_pollfds := by
            rw [length_storeRevents, (fillPollfds_cases h).1]
            apply h.cap_le_pollfds }
  | skip => exact h
  | invoke => exact h
  | roundDone =>
      have hsame : EventLoop.Arrays { s.loop with dispatching := false } := { h with }
      exact (compact_cases hsame).2.1
  | callbackReturns => exact h

/-- In every state the thread can reach the arrays are large enough. -/
theorem arrays_of_reaches {log : List LoopEvent} (hs : loopMachine.Reaches log s) :
  s.loop.Arrays
  := by
  apply hs.invariant (I := fun _ s => s.loop.Arrays)
  · rintro _ rfl
    exact ⟨Nat.le_refl _, Nat.le_refl _, Nat.le_refl _⟩
  · rintro log s e s' - h ⟨a, hstep⟩
    exact (loopStep_cases h hstep).arrays h

/-- A property of the log and the state that holds at the start and is kept by every step
holds of every state the thread can reach. -/
theorem loop_invariant
    {log : List LoopEvent} (hs : loopMachine.Reaches log s) {I : List LoopEvent → LoopSystem → Prop}
    (start : I [] ⟨.zero, .outside⟩)
    (keep : ∀ log s e s', loopMachine.Reaches log s → I log s → LoopStep s e s' →
      I (log ++ e.toList) s') :
  I log s
  := by
  apply hs.invariant
  · rintro _ rfl
    exact start
  · rintro log s e s' hs hI ⟨a, hstep⟩
    apply keep log s e s' hs hI (loopStep_cases (arrays_of_reaches hs) hstep)

end CTemplate
