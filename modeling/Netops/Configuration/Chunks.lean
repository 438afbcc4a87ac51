import Netops.Configuration.Stream

/-!
# Chunks do not matter

However the bytes are cut into chunks, the redactor returns the same content or fails.

* `push`, `pushAll`   the text one character at a time;
* `settle`            the state that a step leads to, with the parts of a physical line joined, and
                      nothing for a failure;
* `settle_feedText`, `settle_feed_append`, `chunks_irrelevant`.
-/

namespace Netops.Configuration

section
variable (su : Setup) (embedded : Nat → Text → Except Failure (Option Embedded))

def State.setCr (x : Bool) (s : State) : State := { s with afterCr := x }

def State.setInput (d : Option Utf8.Pending) (r : Nat) (s : State) : State :=
  { s with
    decoder := d
    rawBytes := r }

/-- one character -/
def push (c : Char) (s : State) : Except Failure State :=
  if c = '\n' ∧ s.afterCr then .ok (s.setCr false)
  else if c = '\n' ∨ c = '\r' then (line su embedded s).map (State.setCr (c = '\r'))
  else (addPart su [c] s).map (State.setCr false)

def pushAll : Text → State → Except Failure State
  | [], s => .ok s
  | c :: t, s => (push su embedded c s).bind (pushAll t)

/-- the parts of the physical line are joined -/
def State.joined (s : State) : State := { s with physical := [s.physical.flatten] }

/-- the state that a step leads to, as far as it matters -/
def settle (x : Except Failure State) : Option State := x.toOption.map State.joined

end

section
variable {su : Setup} {embedded : Nat → Text → Except Failure (Option Embedded)} {s s' : State}
variable {t : Text}

theorem settle_ok : settle (.ok s) = some s.joined := rfl
theorem settle_error (e : Failure) : settle (.error e) = none := rfl

/-- steps follow one another, if the second one does not depend on how the line is cut -/
theorem settle_bind {x : Except Failure State} {f : State → Except Failure State}
    (hf : ∀ s s', s.joined = s'.joined → settle (f s) = settle (f s')) :
    settle (x.bind f) = (settle x).bind fun s => settle (f s) := by
  cases x with
  | error e => rfl
  | ok s =>
    refine hf s s.joined ?_
    show _ = ({ s with physical := [[s.physical.flatten].flatten] } : State)
    rw [List.flatten_singleton]
    rfl

theorem settle_map {x : Except Failure State} {f : State → State}
    (hf : ∀ s, (f s).joined = f s.joined) : settle (x.map f) = (settle x).map f := by
  cases x with
  | error e => rfl
  | ok s => exact congrArg some (hf s)

theorem settle_bind_congr {x y : Except Failure State} {f g : State → Except Failure State}
    (hf : ∀ s s', s.joined = s'.joined → settle (f s) = settle (f s'))
    (hg : ∀ s s', s.joined = s'.joined → settle (g s) = settle (g s'))
    (hxy : settle x = settle y) (hfg : ∀ s, settle (f s) = settle (g s)) :
    settle (x.bind f) = settle (y.bind g) := by
  rw [settle_bind hf, settle_bind hg, hxy]
  exact congrArg _ (funext hfg)

/-! ## lines and parts -/

/-- `_line` sees the physical line as a whole -/
theorem line_joined (h : s.joined = s'.joined) : line su embedded s = line su embedded s' := by
  have hflat : s.physical.flatten = s'.physical.flatten := by
    have := congrArg (fun x : State => x.physical.flatten) h
    simpa [State.joined] using this
  have hrest : s' = { s with physical := s'.physical } := by
    obtain ⟨_, _, _, _, _, _, _, _⟩ := s
    obtain ⟨_, _, _, _, _, _, _, _⟩ := s'
    simp only [State.joined, State.mk.injEq] at h ⊢
    obtain ⟨h1, h2, h3, -, h4, h5, h6, h7⟩ := h
    exact ⟨h1.symm, h2.symm, h3.symm, trivial, h4.symm, h5.symm, h6.symm, h7.symm⟩
  rw [hrest]
  unfold line
  rw [hflat]

/-- a change of the state that `_line` passes over -/
structure Passes (f : State → State) : Prop where
  physical : ∀ s, (f s).physical = s.physical
  physicalBytes : ∀ s, (f s).physicalBytes = s.physicalBytes
  scan : ∀ s, (f s).scan = s.scan
  book : ∀ s, (f s).book = s.book
  after : ∀ s p n scan book seen, f { s with
      physical := p
      physicalBytes := n
      scan := scan
      book := book
      seen := s.seen ++ seen } = { f s with
        physical := p
        physicalBytes := n
        scan := scan
        book := book
        seen := (f s).seen ++ seen }

theorem passes_setCr (x : Bool) : Passes (State.setCr x) :=
  ⟨fun _ => rfl, fun _ => rfl, fun _ => rfl, fun _ => rfl, fun _ _ _ _ _ _ => rfl⟩

theorem passes_setInput (d : Option Utf8.Pending) (r : Nat) : Passes (State.setInput d r) :=
  ⟨fun _ => rfl, fun _ => rfl, fun _ => rfl, fun _ => rfl, fun _ _ _ _ _ _ => rfl⟩

theorem line_passes {f : State → State} (hf : Passes f) :
    line su embedded (f s) = (line su embedded s).map f := by
  unfold line
  rw [hf.book, hf.physical, hf.scan]
  cases scanLine su s.book s.physical.flatten s.scan with
  | error e => rfl
  | ok scanned =>
    obtain ⟨scan, logical⟩ := scanned
    cases logical with
    | none =>
      have h := hf.after s [] 0 scan s.book []
      rw [List.append_nil, List.append_nil] at h
      show Except.ok _ = Except.ok _
      rw [h, ← hf.book s]
    | some logical =>
      show (record su embedded logical s.book).bind _ = Except.map _ ((record su embedded logical
        s.book).bind _)
      cases record su embedded logical s.book with
      | error e => rfl
      | ok book => exact congrArg Except.ok (hf.after s [] 0 scan book [logical]).symm

/-- after `_line` the physical line is empty -/
theorem line_ok (h : line su embedded s = .ok s') : s'.physicalBytes = 0 ∧ s'.rawBytes = s.rawBytes := by
  unfold line at h
  cases hs : scanLine su s.book s.physical.flatten s.scan with
  | error e =>
    rw [hs] at h
    cases h
  | ok scanned =>
    obtain ⟨scan, logical⟩ := scanned
    rw [hs] at h
    cases logical with
    | none =>
      cases h
      exact ⟨rfl, rfl⟩
    | some logical =>
      have h' : (record su embedded logical s.book).bind _ = Except.ok s' := h
      cases hr : record su embedded logical s.book with
      | error e =>
        rw [hr] at h'
        cases h'
      | ok book =>
        rw [hr] at h'
        cases h'
        exact ⟨rfl, rfl⟩

theorem byteLength_append (a b : Text) : byteLength (a ++ b) = byteLength a + byteLength b := by
  rw [byteLength, byteLength, byteLength, List.map_append, List.sum_append]

/-- a part may come in two pieces -/
theorem addPart_append (a b : Text) :
    settle (addPart su (a ++ b) s) = settle ((addPart su a s).bind (addPart su b)) := by
  unfold addPart
  rw [byteLength_append]
  by_cases h1 : s.physicalBytes + byteLength a > su.limits.physicalLineBytes
  · rw [if_pos (by omega), if_pos h1]
    rfl
  · rw [if_neg h1]
    show _ = settle (if s.physicalBytes + byteLength a + byteLength b > _ then _ else _)
    by_cases h2 : s.physicalBytes + byteLength a + byteLength b > su.limits.physicalLineBytes
    · rw [if_pos (by omega), if_pos h2]
    · rw [if_neg (by omega), if_neg h2]
      simp only [settle_ok, State.joined, List.flatten_append, List.flatten_cons, List.flatten_nil,
        List.append_nil, List.append_assoc, Nat.add_assoc]

theorem addPart_joined (part : Text) (h : s.joined = s'.joined) :
    settle (addPart su part s) = settle (addPart su part s') := by
  obtain ⟨_, _, _, _, _, _, _, _⟩ := s
  obtain ⟨_, _, _, _, _, _, _, _⟩ := s'
  simp only [State.joined, State.mk.injEq] at h
  obtain ⟨rfl, rfl, rfl, h, rfl, rfl, rfl, rfl⟩ := h
  have hflat := (List.cons.inj h).1
  unfold addPart
  dsimp only
  split_ifs
  · rfl
  · simp only [settle_ok, State.joined, List.flatten_append, hflat]

theorem addPart_passes {f : State → State} (hf : Passes f) (part : Text) :
    addPart su part (f s) = (addPart su part s).map f := by
  unfold addPart
  rw [hf.physicalBytes, hf.physical]
  dsimp only
  split_ifs
  · rfl
  · have h := hf.after s (s.physical ++ [part]) (s.physicalBytes + byteLength part) s.scan s.book []
    rw [List.append_nil, List.append_nil] at h
    show Except.ok _ = Except.ok _
    rw [h, ← hf.book s, ← hf.scan s]

theorem addPart_ok {part : Text} (h : addPart su part s = .ok s') :
    s'.physicalBytes ≤ su.limits.physicalLineBytes ∧ s'.rawBytes = s.rawBytes := by
  unfold addPart at h
  dsimp only at h
  split_ifs at h with hl
  cases h
  exact ⟨Nat.le_of_not_lt hl, rfl⟩

/-- nothing is added -/
theorem addPart_nil (h : s.physicalBytes ≤ su.limits.physicalLineBytes) :
    settle (addPart su [] s) = some s.joined := by
  unfold addPart
  rw [if_neg (by simpa [byteLength] using h), settle_ok]
  simp [State.joined, byteLength]

/-! ## one character at a time -/

theorem push_joined (c : Char) (h : s.joined = s'.joined) :
    settle (push su embedded c s) = settle (push su embedded c s') := by
  have hcr : s'.afterCr = s.afterCr := by
    have := congrArg State.afterCr h
    exact this.symm
  unfold push
  rw [hcr]
  split_ifs
  · exact congrArg (fun x : State => some (x.setCr false)) h
  · rw [line_joined h]
  · rw [settle_map (f := State.setCr false) fun _ => rfl,
      settle_map (f := State.setCr false) fun _ => rfl, addPart_joined [c] h]

theorem pushAll_joined (t : Text) (h : s.joined = s'.joined) :
    settle (pushAll su embedded t s) = settle (pushAll su embedded t s') := by
  induction t generalizing s s' with
  | nil => exact congrArg some h
  | cons c t ih =>
    exact settle_bind_congr (fun _ _ h => ih h) (fun _ _ h => ih h) (push_joined c h) fun _ => rfl

theorem pushAll_append (a b : Text) :
    pushAll su embedded (a ++ b) s = (pushAll su embedded a s).bind (pushAll su embedded b) := by
  induction a generalizing s with
  | nil => rfl
  | cons c a ih =>
    show (push su embedded c s).bind _ = ((push su embedded c s).bind _).bind _
    cases push su embedded c s with
    | error e => rfl
    | ok s => exact ih

/-- the decoder and the number of bytes read are passed over -/
theorem push_setInput (c : Char) (d : Option Utf8.Pending) (r : Nat) :
    push su embedded c (s.setInput d r) = (push su embedded c s).map (State.setInput d r) := by
  unfold push
  show (if c = '\n' ∧ s.afterCr then _ else _) = _
  split_ifs
  · rfl
  · rw [line_passes (passes_setInput d r)]
    cases line su embedded s <;> rfl
  · rw [addPart_passes (passes_setInput d r)]
    cases addPart su [c] s <;> rfl

theorem pushAll_setInput (t : Text) (d : Option Utf8.Pending) (r : Nat) :
    pushAll su embedded t (s.setInput d r)
      = (pushAll su embedded t s).map (State.setInput d r) := by
  induction t generalizing s with
  | nil => rfl
  | cons c t ih =>
    show (push su embedded c (s.setInput d r)).bind _ = Except.map _ ((push su embedded c s).bind _)
    rw [push_setInput]
    cases push su embedded c s with
    | error e => rfl
    | ok s => exact ih

/-- an open carriage return only matters to a newline -/
theorem push_setCr {c : Char} (hc : c ≠ '\n') (x : Bool) :
    push su embedded c (s.setCr x) = push su embedded c s := by
  unfold push
  simp only [hc, false_and, false_or, if_false]
  split_ifs
  · rw [line_passes (passes_setCr x)]
    cases line su embedded s <;> rfl
  · rw [addPart_passes (passes_setCr x)]
    cases addPart su [c] s <;> rfl

/-- the last character says whether a carriage return is open -/
theorem pushAll_cr (h : pushAll su embedded t s = .ok s') (hs : t = [] → s.afterCr = false) :
    s'.afterCr = decide (t.getLast? = some '\r') := by
  induction t generalizing s with
  | nil =>
    cases h
    exact hs rfl
  | cons c t ih =>
    have h' : (push su embedded c s).bind (pushAll su embedded t) = .ok s' := h
    cases hp : push su embedded c s with
    | error e =>
      rw [hp] at h'
      cases h'
    | ok s1 =>
      rw [hp] at h'
      by_cases ht : t = []
      · subst ht
        cases h'
        unfold push at hp
        split_ifs at hp with h1 h2
        · cases hp
          simp [h1.1, State.setCr]
        · cases hl : line su embedded s with
          | error e =>
            rw [hl] at hp
            cases hp
          | ok u =>
            rw [hl] at hp
            cases hp
            simp [State.setCr]
        · cases hl : addPart su [c] s with
          | error e =>
            rw [hl] at hp
            cases hp
          | ok u =>
            rw [hl] at hp
            cases hp
            have hc : c ≠ '\r' := fun h => h2 (.inr h)
            simp [State.setCr, hc]
      · rw [List.getLast?_cons_of_ne_nil ht]
        exact ih h' fun h => absurd h ht

/-! ## parts of a chunk -/

theorem feedParts_two (p q : Text) (rest : List Text) :
    feedParts su embedded (p :: q :: rest) s = (addPart su p s).bind fun s =>
      (line su embedded s).bind (feedParts su embedded (q :: rest)) := rfl

theorem lineThen_joined (f : State → Except Failure State) (h : s.joined = s'.joined) :
    settle ((line su embedded s).bind f) = settle ((line su embedded s').bind f) := by
  rw [line_joined h]

theorem feedParts_joined (parts : List Text) (h : s.joined = s'.joined) :
    settle (feedParts su embedded parts s) = settle (feedParts su embedded parts s') := by
  match parts with
  | [] => exact congrArg some h
  | [p] => exact addPart_joined p h
  | p :: q :: rest =>
    rw [feedParts_two, feedParts_two]
    exact settle_bind_congr (fun _ _ h => lineThen_joined _ h) (fun _ _ h => lineThen_joined _ h)
      (addPart_joined p h) fun _ => rfl

/-- the first character of a part may come alone -/
theorem feedParts_char (c : Char) (l : Text) (ls : List Text) :
    settle (feedParts su embedded ((c :: l) :: ls) s)
      = settle ((addPart su [c] s).bind (feedParts su embedded (l :: ls))) := by
  cases ls with
  | nil => exact addPart_append [c] l
  | cons q rest =>
    have hline : ∀ s s' : State, s.joined = s'.joined →
        settle ((line su embedded s).bind (feedParts su embedded (q :: rest)))
          = settle ((line su embedded s').bind (feedParts su embedded (q :: rest))) :=
      fun _ _ h => lineThen_joined _ h
    rw [feedParts_two, settle_bind hline, show c :: l = [c] ++ l from rfl, addPart_append]
    rw [← settle_bind hline]
    cases addPart su [c] s with
    | error e => rfl
    | ok s => rfl

/-- an empty part ends the line that is there -/
theorem feedParts_end (hs : s.physicalBytes ≤ su.limits.physicalLineBytes) (q : Text)
    (rest : List Text) :
    settle (feedParts su embedded ([] :: q :: rest) s)
      = settle ((line su embedded s).bind (feedParts su embedded (q :: rest))) := by
  have hline : ∀ s s' : State, s.joined = s'.joined →
      settle ((line su embedded s).bind (feedParts su embedded (q :: rest)))
        = settle ((line su embedded s').bind (feedParts su embedded (q :: rest))) :=
    fun _ _ h => lineThen_joined _ h
  rw [feedParts_two, settle_bind hline, addPart_nil hs]
  refine hline _ _ ?_
  simp [State.joined]

theorem splitLines_cons (t : Text) : ∃ l ls, Fortios.splitLines t = l :: ls := by
  cases t with
  | nil => exact ⟨[], [], rfl⟩
  | cons c t =>
    unfold Fortios.splitLines
    split_ifs
    · exact ⟨_, _, rfl⟩
    · split
      · exact ⟨_, _, rfl⟩
      · exact ⟨_, _, rfl⟩

theorem splitLines_newline (t : Text) :
    Fortios.splitLines ('\n' :: t) = [] :: Fortios.splitLines t := by
  rw [Fortios.splitLines, if_pos rfl]

theorem splitLines_char {c : Char} (hc : c ≠ '\n') {t l : Text} {ls : List Text}
    (h : Fortios.splitLines t = l :: ls) : Fortios.splitLines (c :: t) = (c :: l) :: ls := by
  rw [Fortios.splitLines, if_neg hc, h]

theorem settle_setCr (x : Bool) (y : Except Failure State) :
    settle (y.map (State.setCr x)) = (settle y).map (State.setCr x) :=
  settle_map (f := State.setCr x) fun _ => rfl

/-- after the end of a line the rest goes on with an empty line -/
theorem settle_lineThen {f g : State → Except Failure State} {h : State → State}
    (hfg : ∀ u, u.physicalBytes ≤ su.limits.physicalLineBytes → settle (f u) = (settle (g u)).map h) :
    settle ((line su embedded s).bind f) = (settle ((line su embedded s).bind g)).map h := by
  cases hl : line su embedded s with
  | error e => rfl
  | ok u =>
    refine hfg u ?_
    rw [(line_ok hl).1]
    exact Nat.zero_le _

end

section
variable {su : Setup} {embedded : Nat → Text → Except Failure (Option Embedded)}

/-- The parts of a text, against its characters; `x` is what is noted about an open carriage
return. -/
theorem settle_feedParts (x : Bool) (t : Text) : ∀ s : State,
    s.physicalBytes ≤ su.limits.physicalLineBytes →
    settle (feedParts su embedded (Fortios.splitLines (newlines t)) (s.setCr x))
      = (settle (pushAll su embedded t (s.setCr false))).map (State.setCr x) := by
  -- a line ends, and the rest of the text comes after it
  have hend : ∀ (rest : Text), (∀ s : State, s.physicalBytes ≤ su.limits.physicalLineBytes →
      settle (feedParts su embedded (Fortios.splitLines (newlines rest)) (s.setCr x))
        = (settle (pushAll su embedded rest (s.setCr false))).map (State.setCr x)) →
      ∀ s : State, s.physicalBytes ≤ su.limits.physicalLineBytes →
      settle (feedParts su embedded (Fortios.splitLines ('\n' :: newlines rest)) (s.setCr x))
        = (settle ((line su embedded s).bind fun u =>
            pushAll su embedded rest (u.setCr false))).map (State.setCr x) := by
    intro rest ih s hs
    obtain ⟨l, ls, hsplit⟩ := splitLines_cons (newlines rest)
    rw [splitLines_newline, hsplit, feedParts_end (s := s.setCr x) hs, line_passes (passes_setCr x), ← hsplit]
    have hbind : ((line su embedded s).map (State.setCr x)).bind
        (feedParts su embedded (Fortios.splitLines (newlines rest)))
        = (line su embedded s).bind fun u =>
          feedParts su embedded (Fortios.splitLines (newlines rest)) (u.setCr x) := by
      cases line su embedded s <;> rfl
    rw [hbind]
    exact settle_lineThen fun u hu => ih u hu
  induction t using newlines.induct with
  | case1 =>
    intro s hs
    exact (addPart_nil (s := s.setCr x) hs).trans rfl
  | case2 rest ih =>
    intro s hs
    have hpush : pushAll su embedded ('\r' :: '\n' :: rest) (s.setCr false)
        = (line su embedded s).bind fun u => pushAll su embedded rest (u.setCr false) := by
      show ((line su embedded (s.setCr false)).map (State.setCr true)).bind _ = _
      rw [line_passes (passes_setCr false)]
      cases line su embedded s <;> rfl
    rw [hpush]
    exact hend rest ih s hs
  | case3 rest hrest ih =>
    intro s hs
    -- the carriage return is not before a newline
    have hpush : (settle (pushAll su embedded ('\r' :: rest) (s.setCr false))).map (State.setCr x)
        = (settle ((line su embedded s).bind fun u =>
            pushAll su embedded rest (u.setCr false))).map (State.setCr x) := by
      have hfirst : pushAll su embedded ('\r' :: rest) (s.setCr false)
          = (line su embedded s).bind fun u => pushAll su embedded rest (u.setCr true) := by
        show ((line su embedded (s.setCr false)).map (State.setCr true)).bind _ = _
        rw [line_passes (passes_setCr false)]
        cases line su embedded s <;> rfl
      rw [hfirst]
      cases line su embedded s with
      | error e => rfl
      | ok u =>
        cases rest with
        | nil => rfl
        | cons c rest =>
          have hc : c ≠ '\n' := fun h => hrest rest (h ▸ rfl)
          show (settle ((push su embedded c (u.setCr true)).bind _)).map _
            = (settle ((push su embedded c (u.setCr false)).bind _)).map _
          rw [push_setCr hc, push_setCr hc]
    rw [hpush]
    have hnew : newlines ('\r' :: rest) = '\n' :: newlines rest := by
      rw [newlines]
      exact hrest
    rw [hnew]
    exact hend rest ih s hs
  | case4 c rest h1 h2 ih =>
    intro s hs
    have hnew : newlines (c :: rest) = c :: newlines rest := by
      rw [newlines]
      · exact h1
      · exact h2
    rw [hnew]
    by_cases hc : c = '\n'
    · subst hc
      have hpush : pushAll su embedded ('\n' :: rest) (s.setCr false)
          = (line su embedded s).bind fun u => pushAll su embedded rest (u.setCr false) := by
        show ((line su embedded (s.setCr false)).map (State.setCr false)).bind _ = _
        rw [line_passes (passes_setCr false)]
        cases line su embedded s <;> rfl
      rw [hpush]
      exact hend rest ih s hs
    · have hcr : c ≠ '\r' := h2
      obtain ⟨l, ls, hsplit⟩ := splitLines_cons (newlines rest)
      rw [splitLines_char hc hsplit, feedParts_char, addPart_passes (passes_setCr x), ← hsplit]
      have hpush : pushAll su embedded (c :: rest) (s.setCr false)
          = (addPart su [c] s).bind fun u => pushAll su embedded rest (u.setCr false) := by
        show (push su embedded c (s.setCr false)).bind _ = _
        unfold push
        rw [if_neg (fun h => hc h.1), if_neg (fun h => h.elim hc hcr),
          addPart_passes (passes_setCr false)]
        cases addPart su [c] s <;> rfl
      rw [hpush]
      cases ha : addPart su [c] s with
      | error e => rfl
      | ok u => exact ih u (addPart_ok ha).1

/-- what is noted about an open carriage return is what the last character says -/
theorem settle_pushAll_cr {t : Text} {s : State} (hs : t = [] → s.afterCr = false) :
    (settle (pushAll su embedded t s)).map (State.setCr (t.getLast? = some '\r'))
      = settle (pushAll su embedded t s) := by
  cases hp : pushAll su embedded t s with
  | error e => rfl
  | ok u =>
    have hcr := pushAll_cr hp hs
    show some (State.setCr _ u.joined) = some u.joined
    rw [← hcr]
    rfl

/-- **A chunk of text, character by character.** -/
theorem settle_feedText {t : Text} {s : State}
    (hs : s.physicalBytes ≤ su.limits.physicalLineBytes) :
    settle (feedText su embedded t s)
      = if t.any isBad then none else settle (pushAll su embedded t s) := by
  unfold feedText
  by_cases ht : t = []
  · subst ht
    rfl
  rw [if_neg ht]
  by_cases hbad : t.any isBad = true
  · rw [if_pos hbad, if_pos hbad]
    rfl
  rw [if_neg hbad, if_neg hbad]
  dsimp only
  by_cases hskip : s.afterCr = true ∧ t.head? = some '\n'
  · rw [if_pos hskip]
    obtain ⟨c, t, rfl⟩ : ∃ c t', t = c :: t' := List.exists_cons_of_ne_nil ht
    have hc : c = '\n' := by simpa using hskip.2
    subst hc
    have hpush : pushAll su embedded ('\n' :: t) s = pushAll su embedded t (s.setCr false) := by
      show (push su embedded '\n' s).bind _ = _
      unfold push
      rw [if_pos ⟨rfl, hskip.1⟩]
      rfl
    rw [hpush]
    exact (settle_feedParts _ t s hs).trans (settle_pushAll_cr fun _ => rfl)
  · rw [if_neg hskip]
    have hpush : pushAll su embedded t s = pushAll su embedded t (s.setCr false) := by
      obtain ⟨c, t, rfl⟩ : ∃ c t', t = c :: t' := List.exists_cons_of_ne_nil ht
      cases hcr : s.afterCr with
      | false => rw [← hcr]; rfl
      | true =>
        have hc : c ≠ '\n' := fun h => hskip ⟨hcr, congrArg some h⟩
        show (push su embedded c s).bind _ = (push su embedded c (s.setCr false)).bind _
        rw [push_setCr hc]
    rw [hpush]
    exact (settle_feedParts _ t s hs).trans (settle_pushAll_cr fun h => absurd h ht)

/-! ## chunks -/

theorem joined_fields {s s' : State} (h : s.joined = s'.joined) :
    s'.rawBytes = s.rawBytes ∧ s'.decoder = s.decoder ∧ s'.physicalBytes = s.physicalBytes ∧
      s'.physical.flatten = s.physical.flatten := by
  have hflat := congrArg (fun x : State => x.physical.flatten) h
  simp only [State.joined, List.flatten_singleton] at hflat
  refine ⟨?_, ?_, ?_, hflat.symm⟩
  · exact (congrArg State.rawBytes h).symm
  · exact (congrArg State.decoder h).symm
  · exact (congrArg State.physicalBytes h).symm

/-- `feed`, character by character -/
theorem settle_feed {data : Bytes} {s : State}
    (hs : s.physicalBytes ≤ su.limits.physicalLineBytes) :
    settle (feed su embedded data s) = if s.rawBytes + data.length > su.maximum then none
      else (Utf8.decode s.decoder data).bind fun x => if x.1.any isBad then none
        else (settle (pushAll su embedded x.1 s)).map
          (State.setInput x.2 (s.rawBytes + data.length)) := by
  unfold feed
  dsimp only
  split_ifs
  · rfl
  · cases Utf8.decode s.decoder data with
    | none => rfl
    | some x =>
      obtain ⟨t, d⟩ := x
      show settle (feedText su embedded t (s.setInput d (s.rawBytes + data.length))) = _
      rw [settle_feedText (s := s.setInput d _) hs, pushAll_setInput, settle_map (f := State.setInput _ _) fun _ => rfl]
      rfl

theorem within_pushAll {t : Text} {s s' : State} (h : pushAll su embedded t s = .ok s')
    (hs : s.physicalBytes ≤ su.limits.physicalLineBytes) :
    s'.physicalBytes ≤ su.limits.physicalLineBytes := by
  induction t generalizing s with
  | nil =>
    cases h
    exact hs
  | cons c t ih =>
    have h' : (push su embedded c s).bind (pushAll su embedded t) = .ok s' := h
    cases hp : push su embedded c s with
    | error e =>
      rw [hp] at h'
      cases h'
    | ok u =>
      rw [hp] at h'
      refine ih h' ?_
      unfold push at hp
      split_ifs at hp
      · cases hp
        exact hs
      · cases hl : line su embedded s with
        | error e =>
          rw [hl] at hp
          cases hp
        | ok v =>
          rw [hl] at hp
          cases hp
          exact (line_ok hl).1.le.trans (Nat.zero_le _)
      · cases hl : addPart su [c] s with
        | error e =>
          rw [hl] at hp
          cases hp
        | ok v =>
          rw [hl] at hp
          cases hp
          exact (addPart_ok hl).1

theorem feed_joined (data : Bytes) {s s' : State} (h : s.joined = s'.joined)
    (hs : s.physicalBytes ≤ su.limits.physicalLineBytes) :
    settle (feed su embedded data s) = settle (feed su embedded data s') := by
  obtain ⟨hraw, hdec, hbytes, -⟩ := joined_fields h
  have hpush : ∀ t, settle (pushAll su embedded t s) = settle (pushAll su embedded t s') :=
    fun t => pushAll_joined t h
  rw [settle_feed hs, settle_feed (hbytes ▸ hs), hraw, hdec]
  simp only [hpush]

theorem joined_joined (s : State) : s.joined.joined = s.joined := by
  show ({ s with physical := [[s.physical.flatten].flatten] } : State) = _
  rw [List.flatten_singleton]
  rfl

theorem within_feed {data : Bytes} {s s' : State} (h : feed su embedded data s = .ok s')
    (hs : s.physicalBytes ≤ su.limits.physicalLineBytes) :
    s'.physicalBytes ≤ su.limits.physicalLineBytes := by
  have hsettle : settle (feed su embedded data s) = some s'.joined := by
    rw [h]
    rfl
  rw [settle_feed hs] at hsettle
  split_ifs at hsettle
  cases hd : Utf8.decode s.decoder data with
  | none =>
    rw [hd] at hsettle
    cases hsettle
  | some x =>
    rw [hd, Option.bind_some] at hsettle
    split_ifs at hsettle
    cases hp : pushAll su embedded x.1 s with
    | error e =>
      rw [hp] at hsettle
      cases hsettle
    | ok v =>
      rw [hp] at hsettle
      have hbytes := congrArg State.physicalBytes (Option.some.inj hsettle)
      have hv : v.physicalBytes = s'.physicalBytes := hbytes
      exact hv ▸ within_pushAll hp hs

/-- **Two chunks are as good as one.** -/
theorem settle_feed_append (a b : Bytes) {s : State}
    (hs : s.physicalBytes ≤ su.limits.physicalLineBytes) :
    settle ((feed su embedded a s).bind (feed su embedded b)) = settle (feed su embedded (a ++ b) s) := by
  have hsecond : settle ((feed su embedded a s).bind (feed su embedded b))
      = (settle (feed su embedded a s)).bind fun u => settle (feed su embedded b u) := by
    cases hf : feed su embedded a s with
    | error e => rfl
    | ok u => exact feed_joined b (joined_joined u).symm (within_feed hf hs)
  rw [hsecond, settle_feed hs, settle_feed hs, List.length_append, Utf8.decode_append]
  by_cases ha : s.rawBytes + a.length > su.maximum
  · rw [if_pos ha, if_pos (by omega)]
    rfl
  rw [if_neg ha]
  cases hda : Utf8.decode s.decoder a with
  | none => simp
  | some x =>
    obtain ⟨t, d⟩ := x
    simp only [Option.bind_some, Option.bind_map, Function.comp_def, List.any_append]
    by_cases hbad : t.any isBad = true
    · simp [hbad]
    simp only [hbad, Bool.false_or, Bool.false_eq_true, if_false]
    cases hp : pushAll su embedded t s with
    | error e =>
      have hboth : ∀ t', settle (pushAll su embedded (t ++ t') s) = none := fun t' => by
        rw [pushAll_append, hp]
        rfl
      simp [settle_error, hboth]
    | ok v =>
      have hboth : ∀ t', settle (pushAll su embedded (t ++ t') s) = settle (pushAll su embedded t' v) :=
        fun t' => by
          rw [pushAll_append, hp]
          rfl
      -- the second chunk starts where the first one ended
      have hv : ∀ t', settle (pushAll su embedded t' (v.joined.setInput d (s.rawBytes + a.length)))
          = (settle (pushAll su embedded t' v)).map (State.setInput d (s.rawBytes + a.length)) :=
        fun t' => by
          rw [pushAll_setInput, settle_map (f := State.setInput _ _) fun _ => rfl,
            pushAll_joined t' (joined_joined v)]
      have hwithin : v.physicalBytes ≤ su.limits.physicalLineBytes := within_pushAll hp hs
      have hbytes : (v.joined.setInput d (s.rawBytes + a.length)).physicalBytes
          ≤ su.limits.physicalLineBytes := hwithin
      show settle (feed su embedded b (v.joined.setInput d (s.rawBytes + a.length))) = _
      rw [settle_feed hbytes]
      show (if s.rawBytes + a.length + b.length > _ then _ else (Utf8.decode d b).bind _) = _
      have hraw : (v.joined.setInput d (s.rawBytes + a.length)).rawBytes + b.length
          = s.rawBytes + (a.length + b.length) := Nat.add_assoc ..
      have hlast : ∀ d' r', State.setInput d' r' ∘ State.setInput d (s.rawBytes + a.length)
          = State.setInput d' r' := fun _ _ => rfl
      simp only [hv, hboth, hraw, hlast, Option.map_map, Nat.add_assoc]

theorem settle_feedAll (chunks : List Bytes) {s : State}
    (hs : s.physicalBytes ≤ su.limits.physicalLineBytes) (hraw : s.rawBytes ≤ su.maximum) :
    settle (feedAll su embedded chunks s) = settle (feed su embedded chunks.flatten s) := by
  induction chunks generalizing s with
  | nil =>
    unfold feed
    dsimp only [List.flatten_nil, List.length_nil]
    rw [if_neg (by omega)]
    rfl
  | cons a rest ih =>
    show settle ((feed su embedded a s).bind (feedAll su embedded rest)) = _
    rw [List.flatten_cons, ← settle_feed_append a rest.flatten hs]
    cases hf : feed su embedded a s with
    | error e => rfl
    | ok u =>
      refine ih (within_feed hf hs) ?_
      have hsettle : settle (feed su embedded a s) = some u.joined := by
        rw [hf]
        rfl
      rw [settle_feed hs] at hsettle
      split_ifs at hsettle with hlen
      cases hd : Utf8.decode s.decoder a with
      | none =>
        rw [hd] at hsettle
        cases hsettle
      | some x =>
        rw [hd, Option.bind_some] at hsettle
        split_ifs at hsettle
        cases hp : settle (pushAll su embedded x.1 s) with
        | none =>
          rw [hp] at hsettle
          cases hsettle
        | some v =>
          rw [hp] at hsettle
          have hu : s.rawBytes + a.length = u.rawBytes :=
            congrArg State.rawBytes (Option.some.inj hsettle)
          omega

/-- `finish` sees the last line as a whole -/
theorem finish_joined {s s' : State} (h : s.joined = s'.joined) :
    ((finish su embedded s).map fun u => u.book.output).toOption
      = ((finish su embedded s').map fun u => u.book.output).toOption := by
  obtain ⟨hraw, hdec, -, hflat⟩ := joined_fields h
  have hany : ∀ parts : List Text, parts.any (· ≠ []) = decide (parts.flatten ≠ []) := by
    intro parts
    induction parts with
    | nil => rfl
    | cons p parts ih =>
      rw [List.any_cons, ih, List.flatten_cons]
      cases p <;> simp
  unfold finish
  rw [hraw, hdec]
  by_cases hend : s.rawBytes = 0 ∨ s.decoder ≠ none
  · rw [if_pos hend, if_pos hend]
  rw [if_neg hend, if_neg hend]
  unfold lastLine
  rw [hany, hany, hflat]
  by_cases hline : decide (s.physical.flatten ≠ []) = true
  · rw [if_pos hline, if_pos hline, line_joined h]
  · rw [if_neg hline, if_neg hline]
    have hscan : s'.scan = s.scan := (congrArg State.scan h).symm
    have hbook : s'.book = s.book := (congrArg State.book h).symm
    show (Except.map _ (finished su s)).toOption = (Except.map _ (finished su s')).toOption
    unfold finished
    rw [hscan, hbook]
    split_ifs
    · rfl
    · rfl
    · exact congrArg some (congrArg Book.output hbook.symm)
    · rfl

/-- **Chunks do not matter.**  However the bytes are cut, the redactor succeeds with the same output
or fails. -/
theorem chunks_irrelevant (su : Setup) (chunks : List Bytes) :
    (output su chunks).toOption = (output su [chunks.flatten]).toOption := by
  have hstart : (State.start true 0).physicalBytes ≤ su.limits.physicalLineBytes := Nat.zero_le _
  have hall : ∀ cs : List Bytes, cs.flatten = chunks.flatten →
      settle (feedAll su (embeddedAt 2 su) cs (.start true 0))
        = settle (feed su (embeddedAt 2 su) chunks.flatten (.start true 0)) := fun cs hcs => by
    rw [← hcs]
    exact settle_feedAll cs hstart (Nat.zero_le _)
  have hsame := (hall chunks rfl).trans (hall [chunks.flatten] (List.flatten_singleton ..)).symm
  unfold output redact
  cases hx : feedAll su (embeddedAt 2 su) chunks (.start true 0) with
  | error e =>
    rw [hx] at hsame
    cases hy : feedAll su (embeddedAt 2 su) [chunks.flatten] (.start true 0) with
    | error e' => rfl
    | ok v =>
      rw [hy] at hsame
      cases hsame
  | ok u =>
    rw [hx] at hsame
    cases hy : feedAll su (embeddedAt 2 su) [chunks.flatten] (.start true 0) with
    | error e' =>
      rw [hy] at hsame
      cases hsame
    | ok v =>
      rw [hy] at hsame
      exact finish_joined (Option.some.inj hsame)

end

end Netops.Configuration
