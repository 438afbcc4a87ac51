import Mathlib.Data.List.Basic

/-!
# The lines of a text

`str.splitlines` ends a line at more characters than the newline.

* `splitKeep`    the lines with what ends them; `flatten_splitKeep`: nothing is lost;
* `splitlines`   the lines; `splitlines_cut`: a text may be cut after a character that ends a line.
-/

namespace Lines

/-- the characters that end a line -/
def isLineEnd (c : Char) : Bool :=
  let n := c.toNat
  (10 ≤ n && n ≤ 13) || (28 ≤ n && n ≤ 30) || n = 133 || n = 8232 || n = 8233

/-- `text.splitlines(True)` -/
def splitKeep : List Char → List (List Char)
  | [] => []
  | '\r' :: '\n' :: cs => ['\r', '\n'] :: splitKeep cs
  | c :: cs =>
    if isLineEnd c then [c] :: splitKeep cs
    else match splitKeep cs with
      | [] => [[c]]
      | l :: ls => (c :: l) :: ls

/-- what ends a line -/
def lineEnd (line : List Char) : List Char :=
  (line.reverse.takeWhile isLineEnd).reverse

/-- `text.splitlines()` -/
def splitlines (text : List Char) : List (List Char) :=
  (splitKeep text).map fun line => line.take (line.length - (lineEnd line).length)

theorem flatten_splitKeep (text : List Char) : (splitKeep text).flatten = text := by
  induction text using splitKeep.induct with
  | case1 => rfl
  | case2 cs ih => rw [splitKeep, List.flatten_cons, ih]; rfl
  | case3 c cs hcr hend ih =>
    rw [splitKeep, if_pos hend, List.flatten_cons, ih]
    · rfl
    · exact hcr
  | case4 c cs hcr hend hnil ih =>
    rw [splitKeep, if_neg hend, hnil]
    · rw [hnil] at ih
      rw [← ih]
      rfl
    · exact hcr
  | case5 c cs hcr hend l ls hcons ih =>
    rw [splitKeep, if_neg hend, hcons]
    · rw [hcons] at ih
      rw [← ih]
      rfl
    · exact hcr

theorem splitKeep_ne_nil {text line : List Char} (h : line ∈ splitKeep text) : line ≠ [] := by
  induction text using splitKeep.induct with
  | case1 => exact nomatch h
  | case2 cs ih =>
    rw [splitKeep, List.mem_cons] at h
    rcases h with rfl | h
    · exact nofun
    · exact ih h
  | case3 c cs hcr hend ih =>
    rw [splitKeep, if_pos hend, List.mem_cons] at h
    · rcases h with rfl | h
      · exact nofun
      · exact ih h
    · exact hcr
  | case4 c cs hcr hend hnil ih =>
    rw [splitKeep, if_neg hend, hnil, List.mem_singleton] at h
    · rw [h]
      exact nofun
    · exact hcr
  | case5 c cs hcr hend l ls hcons ih =>
    rw [splitKeep, if_neg hend, hcons, List.mem_cons] at h
    · rcases h with rfl | h
      · exact nofun
      · exact ih (by rw [hcons]; exact List.mem_cons_of_mem l h)
    · exact hcr

/-! ## character by character -/

theorem splitlines_nil : splitlines [] = [] := rfl

theorem lineEnd_cons {c : Char} (hc : isLineEnd c = false) (l : List Char) : lineEnd (c :: l) = lineEnd l := by
  have hnot : ¬isLineEnd c = true := by
    rw [hc]
    exact Bool.noConfusion
  rw [lineEnd, lineEnd, List.reverse_cons, List.takeWhile_append]
  split_ifs with hlen
  · rw [List.takeWhile_cons_of_neg hnot, List.append_nil, (List.takeWhile_prefix _).eq_of_length hlen]
  · rfl

/-- a line without what ends it -/
def body (line : List Char) : List Char := line.take (line.length - (lineEnd line).length)

theorem length_lineEnd (l : List Char) : (lineEnd l).length ≤ l.length := by
  rw [lineEnd, List.length_reverse]
  exact Nat.le_trans (List.takeWhile_prefix _).length_le (Nat.le_of_eq List.length_reverse)

theorem body_cons {c : Char} (hc : isLineEnd c = false) (l : List Char) : body (c :: l) = c :: body l := by
  rw [body, lineEnd_cons hc, List.length_cons, Nat.succ_sub (length_lineEnd l), List.take_succ_cons]
  rfl

theorem body_end {c : Char} (hc : isLineEnd c = true) : body [c] = [] := by
  rw [body, lineEnd, List.reverse_singleton, List.takeWhile_cons_of_pos hc]
  rfl

theorem splitlines_crlf (cs : List Char) : splitlines ('\r' :: '\n' :: cs) = [] :: splitlines cs := by
  rw [splitlines, splitKeep]
  rfl

/-- a character ends a line, or is put before the next one -/
theorem splitlines_end {c : Char} {cs : List Char} (hc : isLineEnd c = true)
    (hcr : c = '\r' → cs.head? ≠ some '\n') : splitlines (c :: cs) = [] :: splitlines cs := by
  have hcase : ∀ ds, c = '\r' → cs = '\n' :: ds → False := by
    rintro ds rfl rfl
    exact hcr rfl rfl
  rw [splitlines, splitKeep.eq_3 c cs hcase, if_pos hc, List.map_cons]
  congr 1
  exact body_end hc

theorem splitlines_cons {c : Char} {cs : List Char} (hc : isLineEnd c = false) :
    splitlines (c :: cs) = match splitlines cs with
      | [] => [[c]]
      | l :: ls => (c :: l) :: ls := by
  have hcase : ∀ ds, c = '\r' → cs = '\n' :: ds → False := by
    rintro ds rfl rfl
    exact absurd hc (by decide)
  rw [splitlines, splitKeep.eq_3 c cs hcase, if_neg (by rw [hc]; exact Bool.noConfusion), splitlines]
  cases hs : splitKeep cs with
  | nil => exact congrArg (fun l => [l]) (body_cons hc [])
  | cons l ls => exact congrArg (fun m => m :: ls.map body) (body_cons hc l)

/-! ## cutting a text -/

theorem splitlines_ne_nil {text : List Char} (h : text ≠ []) : splitlines text ≠ [] := by
  intro hnil
  rw [splitlines, List.map_eq_nil_iff] at hnil
  have hflat := flatten_splitKeep text
  rw [hnil] at hflat
  exact h hflat.symm

theorem splitlines_cons_cut {c e : Char} {cs t : List Char} (hc : isLineEnd c = false)
    (h : splitlines (cs ++ e :: t) = splitlines (cs ++ [e]) ++ splitlines t) :
    splitlines (c :: cs ++ e :: t) = splitlines (c :: cs ++ [e]) ++ splitlines t := by
  rw [List.cons_append, List.cons_append, splitlines_cons hc, splitlines_cons hc, h]
  cases hl : splitlines (cs ++ [e]) with
  | nil => exact absurd hl (splitlines_ne_nil (by simp))
  | cons l ls => rfl

/-- a text may be cut after a character that ends a line -/
theorem splitlines_cut {e : Char} {t : List Char} (he : isLineEnd e = true)
    (hcr : e = '\r' → t.head? ≠ some '\n') : ∀ s : List Char,
      splitlines (s ++ e :: t) = splitlines (s ++ [e]) ++ splitlines t := by
  intro s
  induction s using splitKeep.induct with
  | case1 =>
    rw [List.nil_append, List.nil_append, splitlines_end he hcr, splitlines_end he (fun _ => by simp)]
    rfl
  | case2 cs ih =>
    rw [List.cons_append, List.cons_append, splitlines_crlf, List.cons_append, List.cons_append, splitlines_crlf,
      ih, List.cons_append]
  | case3 c cs hcase hend ih =>
    have hhead : ∀ u : List Char, c = '\r' → (e = '\n' → cs ≠ []) → (cs ++ e :: u).head? ≠ some '\n' := by
      intro u hc hne hh
      cases cs with
      | nil => exact hne (Option.some.inj hh) rfl
      | cons d ds => exact hcase ds hc (by rw [Option.some.inj hh])
    by_cases hpair : c = '\r' ∧ e = '\n' ∧ cs = []
    · obtain ⟨rfl, rfl, rfl⟩ := hpair
      rw [List.cons_append, List.nil_append, List.cons_append, List.nil_append, splitlines_crlf, splitlines_crlf]
      rfl
    · rw [List.cons_append, List.cons_append,
        splitlines_end hend (fun hc => hhead t hc fun h h' => hpair ⟨hc, h, h'⟩),
        splitlines_end hend (fun hc => hhead [] hc fun h h' => hpair ⟨hc, h, h'⟩), ih, List.cons_append]
  | case4 c cs hcase hend hnil ih => exact splitlines_cons_cut (Bool.eq_false_iff.2 hend) ih
  | case5 c cs hcase hend l ls hcons ih => exact splitlines_cons_cut (Bool.eq_false_iff.2 hend) ih

theorem splitlines_newline (s t : List Char) :
    splitlines (s ++ '\n' :: t) = splitlines (s ++ ['\n']) ++ splitlines t :=
  splitlines_cut (by decide) (fun h => absurd h (by decide)) s

/-- a text that ends no line is one -/
theorem splitlines_line {l : List Char} (hl : ∀ c ∈ l, isLineEnd c = false) : splitlines (l ++ ['\n']) = [l] := by
  induction l with
  | nil => rfl
  | cons c l ih =>
    rw [List.cons_append, splitlines_cons (hl c List.mem_cons_self), ih fun d hd => hl d (List.mem_cons_of_mem c hd)]

/-- the first line has what comes before the first end of a line -/
theorem splitlines_head {l : List Char} (hne : l ≠ []) (hl : ∀ c ∈ l, isLineEnd c = false) (t : List Char) :
    ∃ x xs, splitlines (l ++ t) = (l ++ x) :: xs := by
  induction l with
  | nil => exact absurd rfl hne
  | cons c l ih =>
    have hc := hl c List.mem_cons_self
    have hrest : ∀ d ∈ l, isLineEnd d = false := fun d hd => hl d (List.mem_cons_of_mem c hd)
    rw [List.cons_append, splitlines_cons hc]
    cases l with
    | nil =>
      rw [List.nil_append]
      cases splitlines t with
      | nil => exact ⟨[], [], rfl⟩
      | cons x xs => exact ⟨x, xs, rfl⟩
    | cons d l =>
      obtain ⟨x, xs, hx⟩ := ih (List.cons_ne_nil _ _) hrest
      rw [hx]
      exact ⟨x, xs, rfl⟩

/-- and the last line has what comes behind the last one -/
theorem splitlines_last {u : List Char} (hu : ∀ c ∈ u, isLineEnd c = false) : ∀ s : List Char,
    ∃ xs x, splitlines (s ++ (u ++ ['\n'])) = xs ++ [x ++ u] := by
  have hcons : ∀ {c : Char} {cs : List Char}, isLineEnd c = false →
      (∃ xs x, splitlines (cs ++ (u ++ ['\n'])) = xs ++ [x ++ u]) →
        ∃ xs x, splitlines (c :: cs ++ (u ++ ['\n'])) = xs ++ [x ++ u] := by
    rintro c cs hc ⟨xs, x, h⟩
    rw [List.cons_append, splitlines_cons hc, h]
    cases xs with
    | nil => exact ⟨[], c :: x, rfl⟩
    | cons y ys => exact ⟨(c :: y) :: ys, x, rfl⟩
  intro s
  induction s using splitKeep.induct with
  | case1 => exact ⟨[], [], splitlines_line hu⟩
  | case2 cs ih =>
    obtain ⟨xs, x, h⟩ := ih
    exact ⟨[] :: xs, x, by rw [List.cons_append, List.cons_append, splitlines_crlf, h]; rfl⟩
  | case3 c cs hcase hend ih =>
    by_cases hpair : c = '\r' ∧ cs = [] ∧ u = []
    · obtain ⟨rfl, rfl, rfl⟩ := hpair
      exact ⟨[], [], rfl⟩
    · obtain ⟨xs, x, h⟩ := ih
      have hcr : c = '\r' → (cs ++ (u ++ ['\n'])).head? ≠ some '\n' := by
        intro hc hh
        cases cs with
        | nil =>
          cases u with
          | nil => exact hpair ⟨hc, rfl, rfl⟩
          | cons d ds =>
            have hd : d = '\n' := Option.some.inj hh
            have hend := hu d List.mem_cons_self
            rw [hd] at hend
            exact absurd hend (by decide)
        | cons d ds => exact hcase ds hc (by rw [Option.some.inj hh])
      exact ⟨[] :: xs, x, by rw [List.cons_append, splitlines_end hend hcr, h]; rfl⟩
  | case4 c cs hcase hend hnil ih => exact hcons (Bool.eq_false_iff.2 hend) ih
  | case5 c cs hcase hend l ls hcons' ih => exact hcons (Bool.eq_false_iff.2 hend) ih

/-- lines that end no line come back as they are -/
theorem splitlines_lines {ls : List (List Char)} (h : ∀ l ∈ ls, ∀ c ∈ l, isLineEnd c = false) :
    splitlines (ls.flatMap (· ++ ['\n'])) = ls := by
  induction ls with
  | nil => rfl
  | cons l ls ih =>
    rw [List.flatMap_cons, List.append_assoc, List.singleton_append, splitlines_newline,
      splitlines_line (h l List.mem_cons_self),
      ih fun m hm => h m (List.mem_cons_of_mem l hm)]
    rfl

end Lines
