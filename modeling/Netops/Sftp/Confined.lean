import Netops.Sftp.Stat

/-!
# A path that stays inside of its roots

What the client prints is cut into lines at every character that Python takes for the end of a line.  Where the
names that the server gives have none of them, and can be decoded, they are read as they are.

* `Honest`               names of this kind, and roots that are no files;
* `Inside`               what the path leads to is below what a root leads to;
* `segments_blocks`      where there are as many segments as commands, each command has its own;
* `reported_errors`      an error of the client is reported;
* `stat_inside`.
-/

namespace Netops.Sftp

open Netops.Fortios (Text isSpace strip)
open Lines (isLineEnd splitlines)

/-! ## components -/

section
variable {α : Type} [DecidableEq α]

/-- the components of a path -/
def components (sep : α) (path : List α) : List (List α) := (path.splitOn sep).filter (· ≠ [])

theorem components_append (sep : α) (x y : List α) :
    components sep (x ++ sep :: y) = components sep x ++ components sep y := by
  rw [components, List.splitOn_append_cons_self, List.filter_append]
  rfl

theorem components_trailing (sep : α) (x : List α) (k : Nat) :
    components sep (x ++ List.replicate k sep) = components sep x := by
  induction k with
  | zero => rw [List.replicate_zero, List.append_nil]
  | succ k ih =>
    rw [List.replicate_succ', ← List.append_assoc, components_append, ih]
    simp [components]

end

theorem rstripSlash_append (t : Text) : ∃ k, t = rstripSlash t ++ List.replicate k '/' := by
  refine ⟨(t.reverse.takeWhile (· = '/')).length, ?_⟩
  have hslash : ∀ c ∈ t.reverse.takeWhile (· = '/'), c = '/' := by
    intro c hc
    exact of_decide_eq_true (List.all_eq_true.1 List.all_takeWhile c hc)
  have hrev : t = (t.reverse.dropWhile (· = '/')).reverse ++ (t.reverse.takeWhile (· = '/')).reverse := by
    rw [← List.reverse_append, List.takeWhile_append_dropWhile, List.reverse_reverse]
  rw [rstripSlash, ← List.eq_replicate_of_mem hslash]
  conv_lhs => rw [hrev]
  congr 1
  rw [List.eq_replicate_of_mem hslash, List.reverse_replicate]

theorem components_under {path root : Text} (h : under path root = true) :
    components '/' root <+: components '/' path := by
  rw [under, Bool.or_eq_true, decide_eq_true_iff, decide_eq_true_iff] at h
  rcases h with rfl | ⟨x, rfl⟩
  · exact List.prefix_rfl
  · obtain ⟨k, hk⟩ := rstripSlash_append root
    rw [List.append_assoc, List.singleton_append, components_append]
    conv_lhs => rw [hk, components_trailing]
    exact List.prefix_append _ _

theorem encode_replicate_slash (k : Nat) : Utf8.encode (List.replicate k '/') = List.replicate k 47 := by
  induction k with
  | zero => rfl
  | succ k ih => rw [List.replicate_succ, List.replicate_succ, Utf8.encode_cons, ih]; rfl

/-- the same for the names as they are encoded -/
theorem components_encode_under {path root : Text} (h : under path root = true) :
    components 47 (Utf8.encode root) <+: components 47 (Utf8.encode path) := by
  rw [under, Bool.or_eq_true, decide_eq_true_iff, decide_eq_true_iff] at h
  rcases h with rfl | ⟨x, rfl⟩
  · exact List.prefix_rfl
  · obtain ⟨k, hk⟩ := rstripSlash_append root
    rw [List.append_assoc, List.singleton_append, Utf8.encode_append, Utf8.encode_cons,
      show String.utf8EncodeChar '/' = [47] from rfl, List.singleton_append, components_append]
    conv_lhs => rw [hk, Utf8.encode_append, encode_replicate_slash, components_trailing]
    exact List.prefix_append _ _

/-! ## segments -/

theorem segmentsFrom_last (segs : List (List Text)) (s : List Text) (lines : List Text) :
    segmentsFrom (segs ++ [s]) lines = segs ++ segmentsFrom [s] lines := by
  induction lines generalizing segs s with
  | nil => rfl
  | cons line lines ih =>
    have hne : segs ++ [s] ≠ [] := by simp
    rw [segmentsFrom, segmentsFrom]
    split_ifs with hecho hblank hblank' hblank'
    · rw [ih (segs ++ [s]), ih [s], List.append_assoc]
    · exact ih segs s
    · exact absurd (hblank.resolve_right hne) (fun h => hblank' (.inl h))
    · exact absurd (hblank'.resolve_right (by simp)) (fun h => hblank (.inl h))
    · rw [List.dropLast_concat, List.getLast?_concat, ih]
      rfl

/-- the lines of one command: the echo, and what follows -/
structure Block where
  head : Text
  rest : List Text
  isEcho : isEcho head = true

/-- the segments of one command -/
def Block.segments (b : Block) : List (List Text) := segmentsFrom [[]] b.rest

theorem segmentsFrom_blocks (bs : List Block) (segs : List (List Text)) :
    segmentsFrom segs (bs.flatMap fun b => b.head :: b.rest) = segs ++ bs.flatMap Block.segments := by
  induction bs generalizing segs with
  | nil => rw [List.flatMap_nil, List.flatMap_nil, List.append_nil, segmentsFrom]
  | cons b bs ih =>
    have hmore : ∀ (s : List (List Text)) (l m : List Text), s ≠ [] →
        segmentsFrom s (l ++ m) = segmentsFrom (segmentsFrom s l) m := by
      intro s l m
      induction l generalizing s with
      | nil => intro _; rfl
      | cons x l ihl =>
        intro hs
        rw [List.cons_append, segmentsFrom, segmentsFrom]
        split_ifs
        · exact ihl _ (by simp)
        · exact ihl _ hs
        · exact ihl _ (by simp)
    rw [List.flatMap_cons, List.flatMap_cons, List.cons_append, segmentsFrom, if_pos b.isEcho,
      hmore _ _ _ (by simp), ih, segmentsFrom_last, List.append_assoc]
    rfl

theorem length_segmentsFrom (s : List Text) (lines : List Text) : 1 ≤ (segmentsFrom [s] lines).length := by
  induction lines generalizing s with
  | nil => exact Nat.le_refl 1
  | cons line lines ih =>
    rw [segmentsFrom]
    split_ifs
    · rw [segmentsFrom_last [s], List.length_append]
      exact Nat.le_add_right 1 _
    · exact ih s
    · exact ih _

theorem length_le_segments (bs : List Block) : bs.length ≤ (bs.flatMap Block.segments).length := by
  induction bs with
  | nil => exact Nat.le_refl 0
  | cons b bs ih =>
    have hone := length_segmentsFrom [] b.rest
    rw [List.flatMap_cons, List.length_append, List.length_cons, Block.segments]
    omega

/-- the first segment of a command -/
def Block.own (b : Block) : List Text := b.segments.head?.getD []

/-- where there are as many segments as commands, each command has its own -/
theorem segments_blocks {bs : List Block} (h : (bs.flatMap Block.segments).length = bs.length) :
    bs.flatMap Block.segments = bs.map Block.own := by
  induction bs with
  | nil => rfl
  | cons b bs ih =>
    have hone := length_segmentsFrom [] b.rest
    have hrest := length_le_segments bs
    rw [List.flatMap_cons, List.length_append, List.length_cons, Block.segments] at h
    obtain ⟨s, hs⟩ := List.length_eq_one_iff.1 (show b.segments.length = 1 by rw [Block.segments]; omega)
    rw [List.flatMap_cons, List.map_cons, ih (by omega), Block.own, hs]
    rfl

/-! ## what is reported -/

/-- the lines of a text, without blank ones and without blanks around them -/
def said (t : Text) : List Text := ((splitlines t).filter fun l => !isBlankLine l).map strip

theorem said_newline (s t : Text) : said (s ++ '\n' :: t) = said (s ++ ['\n']) ++ said t := by
  rw [said, Lines.splitlines_newline, List.filter_append, List.map_append]
  rfl

theorem dropWhile_concat {y : Text} {c : Char} (hc : isSpace c = false) :
    ∃ z, (y ++ [c]).dropWhile isSpace = z ++ [c] := by
  induction y with
  | nil => exact ⟨[], List.dropWhile_cons_of_neg (by rw [hc]; exact Bool.noConfusion)⟩
  | cons d y ih =>
    rw [List.cons_append, List.dropWhile_cons]
    split_ifs
    · exact ih
    · exact ⟨d :: y, rfl⟩

theorem strip_concat {y : Text} {c : Char} (hc : isSpace c = false) : ∃ z, strip (y ++ [c]) = z ++ [c] := by
  obtain ⟨z, hz⟩ := @dropWhile_concat y c hc
  refine ⟨z, ?_⟩
  rw [strip, hz, List.reverse_append, List.reverse_singleton, List.singleton_append,
    List.dropWhile_cons_of_neg (by rw [hc]; exact Bool.noConfusion), List.reverse_cons, List.reverse_reverse]

/-- a text whose last line ends in such a character -/
theorem said_last {u : Char} (hend : isLineEnd u = false) (hspace : isSpace u = false) (s : Text) :
    ∃ xs z, said (s ++ [u, '\n']) = xs ++ [z ++ [u]] := by
  obtain ⟨xs, x, h⟩ := Lines.splitlines_last (u := [u]) (by simpa using hend) s
  obtain ⟨z, hz⟩ := @strip_concat x u hspace
  have hblank : isBlankLine (x ++ [u]) = false := by
    rw [isBlankLine, List.all_append, Bool.and_eq_false_iff]
    exact .inr (by simpa using hspace)
  refine ⟨(xs.filter fun l => !isBlankLine l).map strip, z, ?_⟩
  rw [said, show s ++ [u, '\n'] = s ++ ([u] ++ ['\n']) from rfl, h, List.filter_append, List.map_append, ← hz]
  congr 1
  rw [List.filter_cons_of_pos (by rw [hblank]; rfl)]
  rfl

theorem notDirectory_last {z : Text} {u : Char} (hu : u ≠ 'y') : notDirectory (z ++ [u]) = none := by
  rw [notDirectory, if_neg]
  rintro ⟨-, x, hx⟩
  have hlast := congrArg List.getLast? hx
  rw [List.getLast?_concat, List.getLast?_append] at hlast
  exact hu (Option.some.inj hlast).symm

theorem afterLast_append {line : Text} {C E : List Text} (h : line ∉ E) :
    afterLast line (C ++ E) = afterLast line C ++ E := by
  have hall : ∀ l ∈ E.reverse, decide (l ≠ line) = true := by
    intro l hl
    refine decide_eq_true fun heq => h ?_
    rw [← heq]
    exact List.mem_reverse.1 hl
  rw [afterLast, afterLast, List.reverse_append, List.takeWhile_append_of_pos hall, List.reverse_append,
    List.reverse_reverse]

theorem afterLast_concat {line x : Text} {C : List Text} (h : x ≠ line) :
    afterLast line (C ++ [x]) = afterLast line C ++ [x] :=
  afterLast_append (by simpa using h.symm)

theorem afterLast_concat_self {line : Text} {C : List Text} : afterLast line (C ++ [line]) = [] := by
  rw [afterLast, List.reverse_append, List.reverse_singleton, List.singleton_append,
    List.takeWhile_cons_of_neg (by simp)]
  rfl

theorem progressLine_concat (name : Text) : ∃ z, progressLine name = z ++ ['.'] := ⟨_, rfl⟩

/-- the last line is reported, unless it is the one on the connection -/
theorem mem_reported {u : Char} (hend : isLineEnd u = false) (hspace : isSpace u = false) (hdot : u ≠ '.')
    (name s : Text) : ∃ z, z ++ [u] ∈ reported name (Utf8.encode (s ++ [u, '\n'])) := by
  obtain ⟨xs, z, h⟩ := said_last hend hspace s
  refine ⟨z, ?_⟩
  have hdecode := Utf8.decodeReplace_encode (s ++ [u, '\n']) []
  rw [List.append_nil, show Utf8.decodeReplace none [] = [] from rfl, List.append_nil] at hdecode
  have hlines : said (s ++ [u, '\n'])
      = ((linesOf (Utf8.encode (s ++ [u, '\n']))).filter fun l => !isBlankLine l).map strip := by
    rw [linesOf, hdecode]
    rfl
  rw [reported, ← hlines, h, afterLast_concat]
  · exact List.mem_append_right _ (List.mem_singleton_self _)
  · intro heq
    obtain ⟨y, hy⟩ := progressLine_concat name
    rw [hy] at heq
    exact hdot (by simpa using congrArg List.getLast? heq)

/-- where only files are reported, it is what was said after the connection -/
theorem reported_eq {name banner R : Text} (hR : progressLine name ∉ said R)
    (hall : ∀ l ∈ reported name (Utf8.encode (banner ++ '\n' :: (progressLine name ++ ['\n'])) ++ Utf8.encode R),
      notDirectory l ≠ none) :
    reported name (Utf8.encode (banner ++ '\n' :: (progressLine name ++ ['\n'])) ++ Utf8.encode R) = said R := by
  obtain ⟨y, hy⟩ := progressLine_concat name
  obtain ⟨xs, z, hlast⟩ := said_last (u := '.') (by decide) (by decide) (banner ++ '\n' :: y)
  have hgreeting : banner ++ '\n' :: (progressLine name ++ ['\n']) = banner ++ '\n' :: y ++ ['.', '\n'] := by
    rw [hy]
    simp
  have hlines : reported name (Utf8.encode (banner ++ '\n' :: (progressLine name ++ ['\n'])) ++ Utf8.encode R)
      = afterLast (progressLine name) (xs ++ [z ++ ['.']]) ++ said R := by
    have hdecode := Utf8.decodeReplace_encode (banner ++ '\n' :: y ++ ['.', '\n'] ++ R) []
    rw [List.append_nil, show Utf8.decodeReplace none [] = [] from rfl, List.append_nil] at hdecode
    have hcut := said_newline (banner ++ '\n' :: y ++ ['.']) R
    have hjoin : banner ++ '\n' :: y ++ ['.', '\n'] ++ R = banner ++ '\n' :: y ++ ['.'] ++ '\n' :: R := by simp
    have hjoin' : banner ++ '\n' :: y ++ ['.', '\n'] = banner ++ '\n' :: y ++ ['.'] ++ ['\n'] := by simp
    rw [hgreeting, ← Utf8.encode_append, reported, linesOf, hdecode]
    change afterLast _ (said (banner ++ '\n' :: y ++ ['.', '\n'] ++ R)) = _
    rw [hjoin, hcut, ← hjoin', hlast, afterLast_append hR]
  rw [hlines] at hall ⊢
  by_cases hself : z ++ ['.'] = progressLine name
  · rw [hself, afterLast_concat_self, List.nil_append]
  · rw [afterLast_concat hself] at hall
    exact absurd (notDirectory_last (by decide))
      (hall (z ++ ['.']) (List.mem_append_left _ (List.mem_append_right _ (List.mem_singleton_self _))))

/-! ## errors of the client -/

/-- a line that is reported as it is -/
structure Tidy (l : Text) : Prop where
  line : ∀ c ∈ l, isLineEnd c = false
  stripped : strip l = l
  nonblank : isBlankLine l = false

theorem said_tidy {ls : List Text} (h : ∀ l ∈ ls, Tidy l) : said (ls.flatMap (· ++ ['\n'])) = ls := by
  rw [said, Lines.splitlines_lines fun l hl => (h l hl).line, List.filter_eq_self.2]
  · conv_rhs => rw [← List.map_id ls]
    exact List.map_congr_left fun l hl => (h l hl).stripped
  · intro l hl
    rw [(h l hl).nonblank]
    rfl

/-- a line between two characters that are no blanks -/
theorem Tidy.between {a b : Char} {x : Text} (ha : isSpace a = false) (hb : isSpace b = false)
    (hl : ∀ c ∈ a :: (x ++ [b]), isLineEnd c = false) : Tidy (a :: (x ++ [b])) where
  line := hl
  stripped := by
    rw [strip, List.dropWhile_cons_of_neg (by rw [ha]; exact Bool.noConfusion), ← List.cons_append,
      List.reverse_append, List.reverse_singleton, List.singleton_append,
      List.dropWhile_cons_of_neg (by rw [hb]; exact Bool.noConfusion), List.reverse_cons, List.reverse_reverse]
  nonblank := by
    rw [isBlankLine, List.all_cons, ha]
    rfl

def couldNot : Text := "Couldn't canonicalize: No such file".toList

theorem line_of_all {l : Text} (h : l.all (fun c => decide (isLineEnd c = false)) = true) :
    ∀ c ∈ l, isLineEnd c = false := List.all_iff_forall_prop.1 h

theorem tidy_couldNot : Tidy couldNot where
  line := line_of_all rfl
  stripped := by decide
  nonblank := by decide

/-- the line on a file -/
def fileLine (name : Text) : Text := notDirectoryHead ++ name ++ notDirectoryTail

theorem tidy_fileLine {name : Text} (h : ∀ c ∈ name, isLineEnd c = false) : Tidy (fileLine name) := by
  have hsplit : fileLine name = 'C' :: ((notDirectoryHead.tail ++ name ++ notDirectoryTail.dropLast) ++ ['y']) := by
    have htail : notDirectoryTail = notDirectoryTail.dropLast ++ ['y'] := by decide
    rw [fileLine]
    conv_lhs => rw [htail]
    rw [← List.append_assoc]
    rfl
  rw [hsplit]
  refine Tidy.between (by decide) (by decide) fun c hc => ?_
  rw [← hsplit, fileLine, List.mem_append, List.mem_append] at hc
  rcases hc with (hc | hc) | hc
  · exact line_of_all (l := notDirectoryHead) rfl c hc
  · exact h c hc
  · exact line_of_all (l := notDirectoryTail) rfl c hc

theorem notDirectory_fileLine {name : Text} (h : name ≠ []) : notDirectory (fileLine name) = some name := by
  have hhead : notDirectoryHead <+: fileLine name := by
    rw [fileLine, List.append_assoc]
    exact List.prefix_append _ _
  rw [notDirectory, if_pos ⟨hhead, List.suffix_append _ _⟩]
  dsimp only
  rw [fileLine, List.length_append, Nat.add_sub_cancel, List.take_left, List.drop_left, if_neg h]

theorem notDirectory_fileLine_nil : notDirectory (fileLine []) = none := by decide

theorem ne_progressLine {l : Text} (name : Text) (h : l.take 3 ≠ "Con".toList) : l ≠ progressLine name := by
  rintro rfl
  exact h rfl

/-- a name that is read as it is -/
def Clean (name : Bytes) : Prop := ∃ cs, name = Utf8.encode cs ∧ ∀ c ∈ cs, isLineEnd c = false

variable (server : Server)

/-- the names that are printed are clean, and no root is a file -/
structure Honest (path : Text) (roots : List Text) : Prop where
  target : ∀ found, server.resolve path = some found → Clean found.name
  places : ∀ root ∈ roots, under path root = true → ∀ found, server.resolve root = some found →
    ∃ name, found = .directory name ∧ Clean name

variable {server}

theorem perform_errors (cwd : Bytes) (c : Command) : (server.perform cwd c).2.1 = (server.perform [] c).2.1 := by
  cases c with
  | cd path => simp only [Server.perform]; split <;> rfl
  | pwd => rfl
  | ls path => simp only [Server.perform]; split <;> rfl

theorem session_errors (cwd : Bytes) (cs : List Command) :
    (server.session cwd cs).2 = cs.flatMap fun c => (server.perform [] c).2.1 := by
  induction cs generalizing cwd with
  | nil => rfl
  | cons c cs ih => rw [Server.session, List.flatMap_cons, ← ih, perform_errors]

/-- the roots that are not there -/
def rootErrors (server : Server) (roots : List Text) : List Text :=
  (roots.filter fun r => (server.resolve r).isNone).map fun _ => couldNot

/-- the errors on the roots -/
theorem errors_roots {roots : List Text}
    (h : ∀ r ∈ roots, ∀ found, server.resolve r = some found → ∃ name, found = .directory name) :
    (roots.flatMap fun p => [Command.cd p, .pwd]).flatMap (fun c => (server.perform [] c).2.1)
      = Utf8.encode ((rootErrors server roots).flatMap (· ++ ['\n'])) := by
  induction roots with
  | nil => rfl
  | cons r roots ih =>
    rw [List.flatMap_cons, List.flatMap_append, ih fun q hq => h q (List.mem_cons_of_mem r hq), rootErrors,
      rootErrors]
    cases hr : server.resolve r with
    | none =>
      have hown : [Command.cd r, .pwd].flatMap (fun c => (server.perform [] c).2.1)
          = Utf8.encode (couldNot ++ ['\n']) := by
        simp only [List.flatMap_cons, List.flatMap_nil, Server.perform, hr, List.append_nil]
        rfl
      rw [hown, List.filter_cons_of_pos (by rw [hr]; rfl), ← Utf8.encode_append]
      rfl
    | some found =>
      obtain ⟨name, rfl⟩ := h r List.mem_cons_self found hr
      rw [List.filter_cons_of_neg (by rw [hr]; exact Bool.noConfusion)]
      simp only [List.flatMap_cons, List.flatMap_nil, Server.perform, hr, List.append_nil, List.nil_append]

/-- the errors of a batch: those on the roots, and those on the path -/
theorem errors_batch {path : Text} {roots : List Text}
    (h : ∀ r ∈ roots, ∀ found, server.resolve r = some found → ∃ name, found = .directory name) (cwd : Bytes) :
    (server.session cwd (resolutionBatch roots path ++ [.ls path])).2
      = Utf8.encode ((rootErrors server roots).flatMap (· ++ ['\n'])) ++
        ((server.perform [] (.cd path)).2.1 ++ (server.perform [] (.ls path)).2.1) := by
  rw [session_errors, resolutionBatch, List.flatMap_append, List.flatMap_append, List.flatMap_append,
    errors_roots h, List.append_assoc]
  congr 1
  simp [Server.perform]

/-- what is known of a session whose report speaks of files only -/
inductive Resolved (server : Server) (path : Text) (report : List Text) : Prop where
  | directory (place : Text) (found : server.resolve path = some (.directory (Utf8.encode place)))
      (clean : ∀ c ∈ place, isLineEnd c = false) (silent : report = [])
  | file (place : Text) (found : server.resolve path = some (.file (Utf8.encode place)))
      (said : report = [fileLine place])

/-- where only files are reported, everything is there -/
theorem resolved_of_reported {path : Text} {roots : List Text}
    (hroots : ∀ r ∈ roots, ∀ found, server.resolve r = some found → ∃ name, found = .directory name ∧ Clean name)
    (hpath : ∀ found, server.resolve path = some found → Clean found.name) {name banner : Text}
    (hall : ∀ l ∈ reported name (server.client name banner (resolutionBatch roots path ++ [.ls path])).stderr,
      notDirectory l ≠ none) :
    (∀ r ∈ roots, server.resolve r ≠ none) ∧
      Resolved server path
        (reported name (server.client name banner (resolutionBatch roots path ++ [.ls path])).stderr) := by
  have herrors := @errors_batch server path roots (fun r hr found hf => (hroots r hr found hf).imp fun _ h => h.1)
    server.home
  rw [Server.client] at hall ⊢
  dsimp only at hall ⊢
  rw [herrors] at hall ⊢
  cases hp : server.resolve path with
  | none =>
    -- the last line is the error of `ls`
    exfalso
    have hls : (server.perform [] (.cd path)).2.1 ++ (server.perform [] (.ls path)).2.1
        = Utf8.encode (couldNot ++ '\n' :: ("Can't ls: \"".toList ++ path ++ "\" not foun".toList) ++ ['d', '\n']) := by
      have hcould : "Couldn't canonicalize: No such file\n".toList = couldNot ++ ['\n'] := by decide
      have hfound : "\" not found\n".toList = "\" not foun".toList ++ ['d', '\n'] := by decide
      simp only [Server.perform, hp]
      rw [← Utf8.encode_append, hcould, hfound]
      simp only [List.append_assoc, List.cons_append, List.nil_append]
    rw [hls, ← Utf8.encode_append, ← Utf8.encode_append, ← List.append_assoc, ← List.append_assoc] at hall
    obtain ⟨z, hz⟩ := mem_reported (u := 'd') (by decide) (by decide) (by decide) name
      (banner ++ '\n' :: (progressLine name ++ ['\n']) ++ (rootErrors server roots).flatMap (· ++ ['\n']) ++
        (couldNot ++ '\n' :: ("Can't ls: \"".toList ++ path ++ "\" not foun".toList)))
    exact hall _ hz (notDirectory_last (by decide))
  | some found =>
    obtain ⟨place, hplace, hclean⟩ := hpath found hp
    -- the errors on the path, as lines
    obtain ⟨lines, hlines, htidy, hcase⟩ : ∃ lines : List Text,
        (server.perform [] (.cd path)).2.1 ++ (server.perform [] (.ls path)).2.1
          = Utf8.encode (lines.flatMap (· ++ ['\n'])) ∧
        (∀ l ∈ lines, Tidy l ∧ l.take 3 ≠ "Con".toList) ∧
        (found = .directory (Utf8.encode place) ∧ lines = [] ∨
          found = .file (Utf8.encode place) ∧ lines = [fileLine place]) := by
      cases found with
      | directory bytes =>
        obtain rfl : bytes = Utf8.encode place := hplace
        refine ⟨[], ?_, nofun, .inl ⟨rfl, rfl⟩⟩
        simp only [Server.perform, hp]
        rfl
      | file bytes =>
        obtain rfl : bytes = Utf8.encode place := hplace
        refine ⟨[fileLine place], ?_, ?_, .inr ⟨rfl, rfl⟩⟩
        · simp only [Server.perform, hp, List.append_nil]
          rw [← Utf8.encode_append, ← Utf8.encode_append]
          simp [fileLine]
        · intro l hl
          obtain rfl := List.mem_singleton.1 hl
          refine ⟨tidy_fileLine hclean, ?_⟩
          change "Can".toList ≠ "Con".toList
          decide
    rw [hlines, ← Utf8.encode_append, ← List.flatMap_append] at hall ⊢
    have htidyAll : ∀ l ∈ rootErrors server roots ++ lines, Tidy l ∧ l.take 3 ≠ "Con".toList := by
      intro l hl
      rcases List.mem_append.1 hl with hl | hl
      · obtain ⟨_, -, rfl⟩ := List.mem_map.1 hl
        exact ⟨tidy_couldNot, by decide⟩
      · exact htidy l hl
    have hsaid := said_tidy fun l hl => (htidyAll l hl).1
    have hprogress : progressLine name ∉ said ((rootErrors server roots ++ lines).flatMap (· ++ ['\n'])) := by
      rw [hsaid]
      exact fun hmem => ne_progressLine name (htidyAll _ hmem).2 rfl
    have hreport := reported_eq hprogress hall
    rw [hreport, hsaid] at hall ⊢
    have hnone : rootErrors server roots = [] := by
      by_contra hne
      obtain ⟨l, hl⟩ := List.exists_mem_of_ne_nil _ hne
      have hl' := hl
      obtain ⟨_, -, rfl⟩ := List.mem_map.1 hl'
      exact hall couldNot (List.mem_append_left _ hl) (by decide)
    rw [hnone, List.nil_append]
    refine ⟨fun r hr hnone' => ?_, ?_⟩
    · have hmem : couldNot ∈ rootErrors server roots :=
        List.mem_map.2 ⟨r, List.mem_filter.2 ⟨hr, by rw [hnone']; rfl⟩, rfl⟩
      rw [hnone] at hmem
      exact nomatch hmem
    · rcases hcase with ⟨rfl, rfl⟩ | ⟨rfl, rfl⟩
      · exact .directory place hp hclean rfl
      · exact .file place hp rfl

/-! ## what is printed -/

/-- the lines of a text that starts with an echo -/
theorem echo_lines (t : Text) : ∃ x xs, splitlines (echoMark ++ t) = (echoMark ++ x) :: xs :=
  Lines.splitlines_head (by decide) (line_of_all rfl) t

theorem splitlines_echo_ne (t : Text) : splitlines (echoMark ++ t) ≠ [] := by
  obtain ⟨x, xs, h⟩ := echo_lines t
  rw [h]
  exact List.cons_ne_nil _ _

/-- the lines of one command -/
def Block.ofText (t : Text) : Block where
  head := (splitlines (echoMark ++ t)).head (splitlines_echo_ne t)
  rest := (splitlines (echoMark ++ t)).tail
  isEcho := by
    obtain ⟨x, xs, h⟩ := echo_lines t
    simp only [h, List.head_cons]
    exact decide_eq_true (List.prefix_append _ _)

theorem Block.lines_ofText (t : Text) :
    (Block.ofText t).head :: (Block.ofText t).rest = splitlines (echoMark ++ t) :=
  List.cons_head_tail _

/-- a directory that was visited, and the place that was printed -/
structure Visit where
  path : Text
  place : Text
  clean : ∀ c ∈ place, isLineEnd c = false

/-- what is printed on `cd`, and on `pwd` -/
def Visit.cdText (v : Visit) : Text := (Command.cd v.path).line ++ ['\n']
def Visit.pwdText (v : Visit) : Text := "pwd".toList ++ '\n' :: (pwdMark ++ v.place ++ ['\n'])

def Visit.text (v : Visit) : Text := echoMark ++ v.cdText ++ (echoMark ++ v.pwdText)

def Visit.blocks (v : Visit) : List Block := [.ofText v.cdText, .ofText v.pwdText]

theorem lines_visits (vs : List Visit) (t : Text) :
    splitlines (vs.flatMap Visit.text ++ (echoMark ++ t))
      = (vs.flatMap Visit.blocks ++ [Block.ofText t]).flatMap fun b => b.head :: b.rest := by
  induction vs with
  | nil =>
    rw [List.flatMap_nil, List.flatMap_nil, List.nil_append, List.nil_append, List.flatMap_singleton,
      Block.lines_ofText]
  | cons v vs ih =>
    have hsplit : (v :: vs).flatMap Visit.text ++ (echoMark ++ t)
        = (echoMark ++ (Command.cd v.path).line) ++ '\n' :: ((echoMark ++ ("pwd".toList ++ '\n' ::
          (pwdMark ++ v.place))) ++ '\n' :: (vs.flatMap Visit.text ++ (echoMark ++ t))) := by
      rw [List.flatMap_cons, Visit.text, Visit.cdText, Visit.pwdText]
      simp only [List.append_assoc, List.cons_append, List.nil_append]
    have hcd : splitlines (echoMark ++ (Command.cd v.path).line ++ ['\n'])
        = (Block.ofText v.cdText).head :: (Block.ofText v.cdText).rest := by
      rw [Block.lines_ofText, Visit.cdText, List.append_assoc]
    have hpwd : splitlines (echoMark ++ ("pwd".toList ++ '\n' :: (pwdMark ++ v.place)) ++ ['\n'])
        = (Block.ofText v.pwdText).head :: (Block.ofText v.pwdText).rest := by
      rw [Block.lines_ofText, Visit.pwdText]
      simp only [List.append_assoc, List.cons_append]
    rw [hsplit, Lines.splitlines_newline, hcd, Lines.splitlines_newline (echoMark ++ _), hpwd, ih,
      List.flatMap_cons, List.append_assoc]
    rfl

/-- the segment of `pwd` is the place -/
theorem own_pwd (v : Visit) : (Block.ofText v.pwdText).own = [pwdMark ++ v.place] := by
  have hline : ∀ c ∈ pwdMark ++ v.place, isLineEnd c = false := by
    intro c hc
    rcases List.mem_append.1 hc with hc | hc
    · exact line_of_all (l := pwdMark) rfl c hc
    · exact v.clean c hc
  have hlines : splitlines (echoMark ++ v.pwdText) = ["sftp> pwd".toList, pwdMark ++ v.place] := by
    rw [Visit.pwdText, ← List.append_assoc, Lines.splitlines_newline, Lines.splitlines_line (line_of_all rfl),
      Lines.splitlines_line hline]
    rfl
  have hrest : (Block.ofText v.pwdText).rest = [pwdMark ++ v.place] := by
    change (splitlines (echoMark ++ v.pwdText)).tail = _
    rw [hlines]
    rfl
  have hecho : isEcho (pwdMark ++ v.place) = false := by
    refine decide_eq_false ?_
    rintro ⟨x, hx⟩
    exact absurd (List.head_eq_of_cons_eq hx) (by decide)
  have hblank : isBlankLine (pwdMark ++ v.place) = false := by
    rw [isBlankLine, List.all_append, Bool.and_eq_false_iff]
    exact .inl (by decide)
  rw [Block.own, Block.segments, hrest, segmentsFrom, hecho, if_neg Bool.false_ne_true, if_neg]
  · rfl
  · rintro (h | h)
    · rw [hblank] at h
      exact nomatch h
    · exact nomatch h

theorem place_visit (v : Visit) : place (Block.ofText v.pwdText).own = some v.place := by
  rw [own_pwd, place, if_pos (List.prefix_append _ _), List.drop_left]

/-- the places that are read are those that were printed -/
theorem places_visits {vs : List Visit} {ps : List Text}
    (h : places ((vs.flatMap Visit.blocks).map Block.own) = some ps) : ps = vs.map Visit.place := by
  induction vs generalizing ps with
  | nil => exact (Option.some.inj h).symm
  | cons v vs ih =>
    rw [List.flatMap_cons, List.map_append] at h
    change places ((Block.ofText v.cdText).own :: (Block.ofText v.pwdText).own ::
      (vs.flatMap Visit.blocks).map Block.own) = some ps at h
    rw [places, place_visit] at h
    split_ifs at h
    cases hrest : places ((vs.flatMap Visit.blocks).map Block.own) with
    | none => rw [hrest] at h; exact nomatch h
    | some qs =>
      rw [hrest] at h
      rw [← Option.some.inj h, ih hrest]
      rfl

theorem length_blocks (vs : List Visit) : (vs.flatMap Visit.blocks).length = 2 * vs.length := by
  induction vs with
  | nil => rfl
  | cons v vs ih =>
    rw [List.flatMap_cons, List.length_append, ih, List.length_cons, Visit.blocks, List.length_cons,
      List.length_singleton]
    omega

/-- where the segments are as many as the commands, the places are those that were printed -/
theorem places_of_segments {vs : List Visit} {t : Text} {data : Bytes}
    (hdata : Utf8.decodeReplace none data = vs.flatMap Visit.text ++ (echoMark ++ t))
    (hlen : (segments data).length = 2 * vs.length + 1) {ps : List Text}
    (hps : places (segments data).dropLast = some ps) : ps = vs.map Visit.place := by
  have hsegs : segments data = (vs.flatMap Visit.blocks ++ [Block.ofText t]).flatMap Block.segments := by
    rw [segments, linesOf, hdata, lines_visits, segmentsFrom_blocks, List.nil_append]
  rw [hsegs] at hlen hps
  rw [segments_blocks, List.map_append, List.map_singleton, List.dropLast_concat] at hps
  · exact places_visits hps
  · rw [hlen, List.length_append, length_blocks, List.length_singleton]

theorem echo_visit (v : Visit) : Server.echo (.cd v.path) ++
    (Server.echo .pwd ++ (Utf8.encode pwdMark ++ Utf8.encode v.place ++ Utf8.encode ['\n']))
      = Utf8.encode v.text := by
  have htext : v.text = (echoMark ++ (Command.cd v.path).line ++ ['\n']) ++
      ((echoMark ++ Command.pwd.line ++ ['\n']) ++ (pwdMark ++ v.place ++ ['\n'])) := by
    rw [Visit.text, Visit.cdText, Visit.pwdText]
    simp only [List.append_assoc, List.cons_append, List.nil_append]
    rfl
  rw [htext]
  simp only [Server.echo, Utf8.encode_append]

/-- changing to a directory, and printing it -/
theorem session_directory (v : Visit) (h : server.resolve v.path = some (.directory (Utf8.encode v.place)))
    (cwd : Bytes) (rest : List Command) : (server.session cwd (.cd v.path :: .pwd :: rest)).1
      = Utf8.encode v.text ++ (server.session (Utf8.encode v.place) rest).1 := by
  simp only [Server.session, Server.perform, h, List.append_nil]
  rw [← echo_visit]
  simp only [List.append_assoc]

/-- a file is not changed to -/
theorem session_file (v : Visit) {name : Bytes} (h : server.resolve v.path = some (.file name))
    (rest : List Command) : (server.session (Utf8.encode v.place) (.cd v.path :: .pwd :: rest)).1
      = Utf8.encode v.text ++ (server.session (Utf8.encode v.place) rest).1 := by
  simp only [Server.session, Server.perform, h, List.append_nil]
  rw [← echo_visit]
  simp only [List.append_assoc]

/-- the directories of the roots, one after the other -/
theorem session_roots {roots : List Text}
    (h : ∀ r ∈ roots, ∃ name, server.resolve r = some (.directory name) ∧ Clean name) (cwd : Bytes) :
    ∃ vs : List Visit, vs.map Visit.path = roots ∧
      (∀ v ∈ vs, server.resolve v.path = some (.directory (Utf8.encode v.place))) ∧
        ∃ last, (roots = [] ∨ Clean last) ∧ ∀ rest,
          (server.session cwd ((roots.flatMap fun p => [Command.cd p, .pwd]) ++ rest)).1
            = Utf8.encode (vs.flatMap Visit.text) ++ (server.session last rest).1 := by
  induction roots generalizing cwd with
  | nil => exact ⟨[], rfl, nofun, cwd, .inl rfl, fun rest => rfl⟩
  | cons r roots ih =>
    obtain ⟨name, hr, place, rfl, hclean⟩ := h r List.mem_cons_self
    obtain ⟨vs, hpaths, hvs, last, hlast, hsession⟩ :=
      ih (fun q hq => h q (List.mem_cons_of_mem r hq)) (Utf8.encode place)
    refine ⟨⟨r, place, hclean⟩ :: vs, by rw [List.map_cons, hpaths], ?_, ?_⟩
    · intro v hv
      rcases List.mem_cons.1 hv with rfl | hv
      · exact hr
      · exact hvs v hv
    · by_cases hnil : roots = []
      · -- the last of the roots
        refine ⟨Utf8.encode place, .inr ⟨place, rfl, hclean⟩, fun rest => ?_⟩
        subst hnil
        obtain rfl : vs = [] := List.map_eq_nil_iff.1 hpaths
        rw [List.flatMap_singleton, List.flatMap_singleton]
        exact session_directory ⟨r, place, hclean⟩ hr cwd rest
      · refine ⟨last, .inr (hlast.resolve_left hnil), fun rest => ?_⟩
        rw [List.flatMap_cons, List.flatMap_cons, Utf8.encode_append, List.append_assoc, List.append_assoc,
          ← hsession]
        exact session_directory ⟨r, place, hclean⟩ hr cwd _

/-! ## inside -/

/-- what the path leads to is below what a root leads to -/
def Inside (server : Server) (path : Text) (roots : List Text) : Prop :=
  ∃ root ∈ roots, components '/' root <+: components '/' path ∧ ∃ place target,
    server.resolve root = some (.directory place) ∧ server.resolve path = some target ∧
      components 47 place <+: components 47 target.name

theorem resolvedInside_ok {roots : List Text} {data : Bytes} {report lines : List Text}
    (h : resolvedInside roots data report = .ok lines) :
    (segments data).length = 2 * (roots.length + 1) + 1 ∧ (∀ l ∈ report, notDirectory l ≠ none) ∧
      ∃ ps, places (segments data).dropLast = some ps ∧
        ps.dropLast.any (under (((report.map notDirectory).head?.bind id).getD (ps.getLast?.getD []))) = true := by
  rw [resolvedInside] at h
  dsimp only at h
  by_cases hlen : (segments data).length ≠ 2 * (roots.length + 1) + 1
  · rw [if_pos hlen] at h
    exact nomatch h
  rw [if_neg hlen] at h
  cases hps : places (segments data).dropLast with
  | none => rw [hps] at h; exact nomatch h
  | some ps =>
    rw [hps] at h
    dsimp only at h
    split_ifs at h with hfiles hunder
    refine ⟨not_not.1 hlen, fun l hl hnone => hfiles ?_, ps, rfl, hunder⟩
    rw [Bool.or_eq_true]
    exact .inl (List.any_eq_true.2 ⟨none, List.mem_map.2 ⟨l, hl, hnone⟩, rfl⟩)

theorem checkedRoots_ok {roots confined : List Text} {path : Text} (h : checkedRoots roots path = .ok confined)
    (hpath : path ∉ roots) : confined = roots.filter (under path) ∧ confined ≠ [] := by
  rw [checkedRoots] at h
  dsimp only at h
  split_ifs at h with hbad hnil hmem
  · exact absurd (List.mem_filter.1 hmem).1 hpath
  · obtain rfl := Except.ok.inj h
    exact ⟨rfl, hnil⟩

/-- what is accepted is inside -/
theorem inside_of_resolved {name banner path : Text} {roots confined lines : List Text}
    (hconfined : confined = roots.filter (under path)) (hne : confined ≠ []) (honest : Honest server path roots)
    (h : resolvedInside confined (server.client name banner (resolutionBatch confined path ++ [.ls path])).stdout
      (reported name (server.client name banner (resolutionBatch confined path ++ [.ls path])).stderr) = .ok lines) :
    Inside server path roots := by
  have hmem : ∀ r ∈ confined, r ∈ roots ∧ under path r = true := by
    intro r hr
    rw [hconfined] at hr
    exact List.mem_filter.1 hr
  obtain ⟨hlen, hall, ps, hps, hunder⟩ := resolvedInside_ok h
  have hroots := fun r hr => honest.places r (hmem r hr).1 (hmem r hr).2
  obtain ⟨hthere, hresolved⟩ := resolved_of_reported hroots honest.target hall
  have hdirs : ∀ r ∈ confined, ∃ place, server.resolve r = some (.directory place) ∧ Clean place := by
    intro r hr
    obtain ⟨found, hfound⟩ := Option.ne_none_iff_exists'.1 (hthere r hr)
    obtain ⟨place, rfl, hclean⟩ := hroots r hr found hfound
    exact ⟨place, hfound, hclean⟩
  obtain ⟨vs, hpaths, hvs, last, hlast, hsession⟩ := session_roots hdirs server.home
  obtain ⟨lastPlace, rfl, hlastClean⟩ := hlast.resolve_left hne
  have hlength : vs.length = confined.length := by rw [← hpaths, List.length_map]
  -- what is read of the roots, given the visit of the path
  have hread : ∀ v : Visit, (server.session (Utf8.encode lastPlace) [.cd path, .pwd, .ls path]).1
        = Utf8.encode v.text ++ (server.session (Utf8.encode v.place) [.ls path]).1 →
      ps = (vs ++ [v]).map Visit.place := by
    intro v hv
    refine places_of_segments (t := (Command.ls path).line ++ ['\n'] ++
      Utf8.decodeReplace none (server.perform (Utf8.encode v.place) (.ls path)).1) ?_ ?_ hps
    · have hstdout : (server.client name banner (resolutionBatch confined path ++ [.ls path])).stdout
          = Utf8.encode ((vs ++ [v]).flatMap Visit.text ++ (echoMark ++ (Command.ls path).line ++ ['\n'])) ++
            (server.perform (Utf8.encode v.place) (.ls path)).1 := by
        change (server.session server.home (resolutionBatch confined path ++ [.ls path])).1 = _
        rw [resolutionBatch, List.flatMap_append, List.append_assoc, hsession, List.flatMap_singleton]
        change _ ++ (server.session (Utf8.encode lastPlace) [.cd path, .pwd, .ls path]).1 = _
        rw [hv, List.flatMap_append, List.flatMap_singleton]
        simp only [Server.session, Server.echo, Utf8.encode_append, List.append_assoc, List.append_nil]
      rw [hstdout, Utf8.decodeReplace_encode]
      simp only [List.append_assoc]
    · rw [hlen, List.length_append, List.length_singleton, hlength]
  have hfinish : ∀ (v : Visit) (target : Text) (found : Found), ps = (vs ++ [v]).map Visit.place →
      ps.dropLast.any (under target) = true → server.resolve path = some found →
        found.name = Utf8.encode target → Inside server path roots := by
    intro v target found hplaces hany hfound hname
    rw [hplaces, List.map_append, List.map_singleton, List.dropLast_concat] at hany
    obtain ⟨place, hplace, hin⟩ := List.any_eq_true.1 hany
    obtain ⟨w, hw, rfl⟩ := List.mem_map.1 hplace
    have hroot : w.path ∈ confined := by
      rw [← hpaths]
      exact List.mem_map.2 ⟨w, hw, rfl⟩
    refine ⟨w.path, (hmem _ hroot).1, components_under (hmem _ hroot).2, Utf8.encode w.place, found, hvs w hw,
      hfound, ?_⟩
    rw [hname]
    exact components_encode_under hin
  cases hresolved with
  | directory place found clean silent =>
    have hplaces := hread ⟨path, place, clean⟩ (session_directory ⟨path, place, clean⟩ found _ _)
    refine hfinish ⟨path, place, clean⟩ place _ hplaces ?_ found rfl
    rw [silent, hplaces, List.map_append, List.map_singleton, List.getLast?_concat] at hunder
    rw [hplaces, List.map_append, List.map_singleton]
    exact hunder
  | file place found said =>
    have hplaces := hread ⟨path, lastPlace, hlastClean⟩ (session_file ⟨path, lastPlace, hlastClean⟩ found _)
    have hnonempty : place ≠ [] := by
      rintro rfl
      refine hall (fileLine []) ?_ notDirectory_fileLine_nil
      rw [said]
      exact List.mem_singleton_self _
    refine hfinish ⟨path, lastPlace, hlastClean⟩ place _ hplaces ?_ found rfl
    rw [said, List.map_singleton, notDirectory_fileLine hnonempty] at hunder
    exact hunder

/-- with names that are read as they are, a path whose entry is returned stays inside of its roots -/
theorem stat_inside (server : Server) (name banner path : Text) (roots : List Text) (entry : Entry)
    (h : stat name path roots (server.client name banner) = .ok entry) (hpath : path ∉ roots)
    (honest : Honest server path roots) : Inside server path roots := by
  rw [stat] at h
  split_ifs at h with hbad
  cases hc : checkedRoots roots path with
  | error e => rw [hc] at h; exact nomatch h
  | ok confined =>
    obtain ⟨hconfined, hne⟩ := checkedRoots_ok hc hpath
    rw [hc] at h
    dsimp only at h
    have hbatch : batch confined path = resolutionBatch confined path ++ [.ls path] := by
      rw [batch, if_neg hne]
    rw [if_neg (fun hcode => hcode rfl), hbatch] at h
    cases hlist : listing (server.client name banner (resolutionBatch confined path ++ [.ls path])).stdout with
    | error e => rw [hlist] at h; exact nomatch h
    | ok all =>
      rw [hlist] at h
      dsimp only at h
      rw [if_neg hne] at h
      cases hinside : resolvedInside confined
          (server.client name banner (resolutionBatch confined path ++ [.ls path])).stdout
          (reported name (server.client name banner (resolutionBatch confined path ++ [.ls path])).stderr) with
      | error e => rw [hinside] at h; exact nomatch h
      | ok lines =>
        exact inside_of_resolved hconfined hne honest hinside

/-- a server with a directory, and a link in it -/
def sampleServer (target : Text) (h : 0 ∉ Utf8.encode target ∧ 10 ∉ Utf8.encode target) : Server where
  resolve path :=
    if path = "/srv".toList then some (.directory (Utf8.encode "/srv".toList))
    else if path = "/srv/link".toList then some (.directory (Utf8.encode target))
    else none
  home := []
  list _ := []
  plain := by
    intro path found hf
    split_ifs at hf
    · obtain rfl := Option.some.inj hf
      decide
    · obtain rfl := Option.some.inj hf
      exact h

theorem stat_inside_below :
    Inside (sampleServer "/srv/data".toList (by decide)) "/srv/link".toList ["/srv".toList] := by
  refine stat_inside (sampleServer "/srv/data".toList (by decide)) "h".toList [] "/srv/link".toList ["/srv".toList]
    { kind := .directory, entryCount := some 0 } (by decide +kernel) (by decide) ⟨?_, ?_⟩
  · intro found hf
    obtain rfl := Option.some.inj hf
    exact ⟨"/srv/data".toList, rfl, line_of_all rfl⟩
  · intro root hroot _ found hf
    obtain rfl := List.mem_singleton.1 hroot
    obtain rfl := Option.some.inj hf
    exact ⟨_, rfl, "/srv".toList, rfl, line_of_all rfl⟩

/-- a link to a directory beside the root: its name ends in a character that ends a line -/
theorem stat_outside : ∃ server : Server, ∃ entry,
    stat "h".toList "/srv/link".toList ["/srv".toList] (server.client "h".toList []) = .ok entry ∧
      "/srv/link".toList ∉ ["/srv".toList] ∧ ¬Inside server "/srv/link".toList ["/srv".toList] := by
  refine ⟨sampleServer "/srv\r".toList (by decide), { kind := .directory, entryCount := some 0 },
    by decide +kernel, by decide, ?_⟩
  rintro ⟨root, hroot, -, place, target, hplace, htarget, hin⟩
  obtain rfl := List.mem_singleton.1 hroot
  obtain rfl := Found.directory.inj (Option.some.inj hplace)
  obtain rfl := Option.some.inj htarget
  exact absurd hin (by decide +kernel)

end Netops.Sftp
