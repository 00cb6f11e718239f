import AgentHost.Lib.Texts

/-!
# Paths of POSIX hosts

`path.posix` as its segments: a path is a text, its segments stand between slashes.

* `PosixPath.isAbsolute`, `normalize`, `resolve`, `relative` — the functions of the module;
  `joinPaths`, `dirname`, `resolvePaths` — those of several paths and of the directory of a path.
* `PosixPath.Clean` — a segment that stands in a normalized path: it is not empty, not `.` or `..`.
* `normalize_relative`, `resolve_absolute` — a path without `..` is its clean segments.
* `relativeSegments_eq` — a relative path leads up, and then down to what is below.
-/

namespace PosixPath

abbrev Segment := List Char

def dot : Segment := ['.']

def dots : Segment := ['.', '.']

/-- `isAbsolute`. -/
def isAbsolute (path : List Char) : Bool := path.head? == some '/'

/-- The path ends with a slash. -/
def endsWithSlash (path : List Char) : Bool := path.getLast? == some '/'

/-- A turn of `normalizeString`: what is kept of the segments so far and the next one. -/
def push (allowAboveRoot : Bool) (kept : List Segment) (segment : Segment) : List Segment :=
  if segment = [] ∨ segment = dot then kept
  else if segment = dots then
    if kept ≠ [] ∧ kept.getLast? ≠ some dots then kept.dropLast
    else if allowAboveRoot then kept ++ [dots]
    else kept
  else kept ++ [segment]

/-- `normalizeString`, as segments. -/
def normalizeSegments (allowAboveRoot : Bool) (path : List Char) : List Segment :=
  (Texts.split '/' path).foldl (push allowAboveRoot) []

/-- `normalize`. -/
def normalize (path : List Char) : List Char :=
  if path = [] then dot
  else
    let segments := normalizeSegments (!isAbsolute path) path
    if segments = [] then
      if isAbsolute path then ['/'] else if endsWithSlash path then ['.', '/'] else dot
    else
      let text := Texts.join '/' segments ++ if endsWithSlash path then ['/'] else []
      if isAbsolute path then '/' :: text else text

/-- `resolve`, of an absolute path. -/
def resolve (path : List Char) : List Char := '/' :: Texts.join '/' (normalizeSegments false path)

/-- The way from one directory to another one. -/
def relativeSegments : List Segment → List Segment → List Segment
  | a :: start, b :: target =>
    if a = b then relativeSegments start target
    else dots :: start.map (fun _ => dots) ++ b :: target
  | start, target => start.map (fun _ => dots) ++ target

/-- `relative`, of absolute paths. -/
def relative (start target : List Char) : List Char :=
  Texts.join '/' (relativeSegments (normalizeSegments false start) (normalizeSegments false target))

/-- `join`. -/
def joinPaths (paths : List (List Char)) : List Char :=
  let parts := paths.filter fun path => path ≠ []
  if parts = [] then dot else normalize (Texts.join '/' parts)

/-- `dirname`: without the last segment and the slashes at its ends. -/
def dirname : List Char → List Char
  | [] => dot
  | c :: cs =>
    match ((cs.reverse.dropWhile (· == '/')).dropWhile (· != '/')).tail?.map List.reverse with
    | none => if c = '/' then ['/'] else dot
    | some [] => if c = '/' then ['/', '/'] else [c]
    | some front => c :: front

/-- Paths from the last one on, until one of them is absolute. -/
def upToAbsolute : List (List Char) → List Char → List Char
  | [], below => below
  | path :: paths, below =>
    if path = [] then upToAbsolute paths below
    else if isAbsolute path then path ++ '/' :: below
    else upToAbsolute paths (path ++ '/' :: below)

/-- `resolve`, of several paths and in a working directory. -/
def resolvePaths (cwd : List Char) (paths : List (List Char)) : List Char :=
  resolve (upToAbsolute (paths.reverse ++ [cwd]) [])

example : normalize "./a//b/../c/".toList = "a/c/".toList := by decide
example : relative "/w/x".toList "/w/y/z".toList = "../y/z".toList := by decide

example : dirname "/w/x//y/".toList = "/w/x/".toList := by decide
example : resolvePaths "/w".toList ["x/.".toList, "../y".toList] = "/w/y".toList := by decide

theorem isAbsolute_resolvePaths (cwd : List Char) (paths : List (List Char)) :
    isAbsolute (resolvePaths cwd paths) = true := rfl

/-- The segments that are kept are not empty. -/
theorem push_ne_nil {allowAboveRoot : Bool} {kept : List Segment} (segment : Segment)
    (h : ∀ s ∈ kept, s ≠ []) : ∀ s ∈ push allowAboveRoot kept segment, s ≠ [] := by
  intro s hs
  rw [push] at hs
  split at hs
  · exact h s hs
  · next hkeep =>
    have hne : segment ≠ [] := fun heq => hkeep (Or.inl heq)
    split at hs
    · split at hs
      · exact h s (List.dropLast_subset _ hs)
      · split at hs
        · rcases List.mem_append.mp hs with hmem | hmem
          · exact h s hmem
          · rw [List.mem_singleton.mp hmem]
            exact List.cons_ne_nil _ _
        · exact h s hs
    · rcases List.mem_append.mp hs with hmem | hmem
      · exact h s hmem
      · rwa [List.mem_singleton.mp hmem]

theorem normalizeSegments_ne_nil (allowAboveRoot : Bool) (path : List Char) :
    ∀ s ∈ normalizeSegments allowAboveRoot path, s ≠ [] := by
  have hfold : ∀ (segments kept : List Segment), (∀ s ∈ kept, s ≠ []) →
      ∀ s ∈ segments.foldl (push allowAboveRoot) kept, s ≠ [] := by
    intro segments
    induction segments with
    | nil => exact fun kept h => h
    | cons segment segments ih => exact fun kept h => ih _ (push_ne_nil segment h)
  exact hfold _ [] fun s hs => absurd hs List.not_mem_nil

/-- A normalized path is not empty. -/
theorem normalize_ne_nil (path : List Char) : normalize path ≠ [] := by
  rw [normalize]
  split
  · exact List.cons_ne_nil _ _
  · dsimp only
    split
    · split
      · exact List.cons_ne_nil _ _
      · split <;> exact List.cons_ne_nil _ _
    · next hsegments =>
      split
      · exact List.cons_ne_nil _ _
      · obtain ⟨s, rest, hs⟩ := List.exists_cons_of_ne_nil hsegments
        have hne : s ≠ [] := normalizeSegments_ne_nil _ path s (hs ▸ List.mem_cons_self)
        rw [hs]
        cases rest with
        | nil => exact List.append_ne_nil_of_left_ne_nil hne _
        | cons next rest =>
          rw [Texts.join, List.append_assoc]
          exact List.append_ne_nil_of_left_ne_nil hne _

theorem joinPaths_ne_nil (paths : List (List Char)) : joinPaths paths ≠ [] := by
  rw [joinPaths]
  split
  · exact List.cons_ne_nil _ _
  · exact normalize_ne_nil _

/-! ### Clean segments -/

/-- A segment that a normalized path keeps. -/
def Clean (segment : Segment) : Prop := segment ≠ [] ∧ segment ≠ dot ∧ segment ≠ dots

instance (segment : Segment) : Decidable (Clean segment) := by unfold Clean; infer_instance

/-- The clean segments of a path. -/
def cleanSegments (path : List Char) : List Segment :=
  (Texts.split '/' path).filter fun segment => segment ≠ [] ∧ segment ≠ dot

theorem foldl_push {allowAboveRoot : Bool} {segments : List Segment} (h : dots ∉ segments)
    (kept : List Segment) : segments.foldl (push allowAboveRoot) kept =
      kept ++ segments.filter fun segment => segment ≠ [] ∧ segment ≠ dot := by
  induction segments generalizing kept with
  | nil => rw [List.filter_nil, List.append_nil, List.foldl_nil]
  | cons segment segments ih =>
    rw [List.mem_cons, not_or] at h
    rw [List.foldl_cons, ih h.2, push, List.filter_cons]
    by_cases hskip : segment = [] ∨ segment = dot
    · have hnot : ¬ (segment ≠ [] ∧ segment ≠ dot) := by tauto
      rw [if_pos hskip, if_neg (by rwa [decide_eq_true_eq])]
    · have hkeep : segment ≠ [] ∧ segment ≠ dot := not_or.mp hskip
      rw [if_neg hskip, if_neg (Ne.symm h.1), if_pos (decide_eq_true hkeep), List.append_assoc]
      rfl

/-- A path without `..` is its clean segments. -/
theorem normalizeSegments_eq {allowAboveRoot : Bool} {path : List Char}
    (h : dots ∉ Texts.split '/' path) :
    normalizeSegments allowAboveRoot path = cleanSegments path := by
  rw [normalizeSegments, foldl_push h, List.nil_append, cleanSegments]

theorem clean_of_mem_cleanSegments {path : List Char} (h : dots ∉ Texts.split '/' path)
    {segment : Segment} (hmem : segment ∈ cleanSegments path) :
    Clean segment ∧ '/' ∉ segment := by
  rw [cleanSegments, List.mem_filter, decide_eq_true_eq] at hmem
  refine ⟨⟨hmem.2.1, hmem.2.2, ?_⟩, Texts.separator_notMem_of_mem_split hmem.1⟩
  rintro rfl
  exact h hmem.1

/-- The path of clean segments has these segments. -/
theorem cleanSegments_join {segments : List Segment} (hne : segments ≠ [])
    (h : ∀ segment ∈ segments, Clean segment ∧ '/' ∉ segment) :
    Texts.split '/' (Texts.join '/' segments) = segments ∧
      cleanSegments (Texts.join '/' segments) = segments := by
  have hsplit := Texts.split_join hne fun segment hmem => (h segment hmem).2
  refine ⟨hsplit, ?_⟩
  rw [cleanSegments, hsplit, List.filter_eq_self]
  exact fun segment hmem => decide_eq_true ⟨(h segment hmem).1.1, (h segment hmem).1.2.1⟩

/-- A path of clean segments begins and ends within them. -/
theorem join_ends {segments : List Segment} (hne : segments ≠ [])
    (h : ∀ segment ∈ segments, Clean segment ∧ '/' ∉ segment) :
    Texts.join '/' segments ≠ [] ∧ isAbsolute (Texts.join '/' segments) = false ∧
      endsWithSlash (Texts.join '/' segments) = false := by
  induction segments with
  | nil => exact absurd rfl hne
  | cons segment segments ih =>
    obtain ⟨⟨hempty, -⟩, hslash⟩ := h segment List.mem_cons_self
    obtain ⟨c, cs, hcs⟩ := List.exists_cons_of_ne_nil hempty
    have hc : c ≠ '/' := fun heq => hslash (by rw [hcs, heq]; exact List.mem_cons_self)
    cases segments with
    | nil =>
      refine ⟨hempty, ?_, ?_⟩
      · simp [Texts.join, isAbsolute, hcs, hc]
      · rw [endsWithSlash, Texts.join, beq_eq_false_iff_ne]
        intro hlast
        exact hslash (List.mem_of_getLast? hlast)
    | cons next segments =>
      obtain ⟨hnonempty, -, hend⟩ := ih (List.cons_ne_nil _ _)
        fun s hs => h s (List.mem_cons_of_mem _ hs)
      refine ⟨by simp [Texts.join, hcs], by simp [Texts.join, isAbsolute, hcs, hc], ?_⟩
      rw [endsWithSlash] at hend ⊢
      rw [Texts.join, List.getLast?_append_of_ne_nil _ (List.cons_ne_nil _ _),
        List.getLast?_cons_of_ne_nil hnonempty]
      exact hend

/-- A slash at the end of a path of clean segments does not change its segments. -/
theorem cleanSegments_join_slash {segments : List Segment} (hne : segments ≠ [])
    (h : ∀ segment ∈ segments, Clean segment ∧ '/' ∉ segment) :
    cleanSegments (Texts.join '/' segments ++ ['/']) = segments := by
  have hjoin : ∀ {segments : List Segment}, segments ≠ [] →
      Texts.join '/' (segments ++ [[]]) = Texts.join '/' segments ++ ['/'] := by
    intro segments hne
    induction segments with
    | nil => exact absurd rfl hne
    | cons segment segments ih =>
      cases segments with
      | nil => rfl
      | cons next segments =>
        show segment ++ '/' :: Texts.join '/' (next :: segments ++ [[]]) =
          (segment ++ '/' :: Texts.join '/' (next :: segments)) ++ ['/']
        rw [ih (List.cons_ne_nil _ _), List.append_assoc]
        rfl
  have hsplit : Texts.split '/' (Texts.join '/' segments ++ ['/']) = segments ++ [[]] := by
    rw [← hjoin hne]
    refine Texts.split_join (by simp) fun segment hmem => ?_
    rcases List.mem_append.mp hmem with hmem | hmem
    · exact (h segment hmem).2
    · rw [List.mem_singleton.mp hmem]
      exact List.not_mem_nil
  have hkept : segments.filter (fun segment => segment ≠ [] ∧ segment ≠ dot) = segments := by
    rw [List.filter_eq_self]
    exact fun segment hmem => decide_eq_true ⟨(h segment hmem).1.1, (h segment hmem).1.2.1⟩
  rw [cleanSegments, hsplit, List.filter_append, hkept]
  simp

/-- A path of clean segments is normalized. -/
theorem normalize_join {segments : List Segment} (hne : segments ≠ [])
    (h : ∀ segment ∈ segments, Clean segment ∧ '/' ∉ segment) :
    normalize (Texts.join '/' segments) = Texts.join '/' segments := by
  obtain ⟨hnonempty, habsolute, hend⟩ := join_ends hne h
  obtain ⟨hsplit, hclean⟩ := cleanSegments_join hne h
  have hdots : dots ∉ Texts.split '/' (Texts.join '/' segments) := by
    rw [hsplit]
    exact fun hmem => (h dots hmem).1.2.2 rfl
  rw [normalize, if_neg hnonempty, normalizeSegments_eq hdots, hclean]
  simp only [hne, habsolute, hend, if_false, Bool.false_eq_true, List.append_nil]

/-- A relative path without `..`, normalized. -/
theorem normalize_relative {path : List Char} (hne : path ≠ [])
    (hrelative : isAbsolute path = false) (h : dots ∉ Texts.split '/' path) :
    normalize path =
      if cleanSegments path = [] then if endsWithSlash path then ['.', '/'] else dot
      else Texts.join '/' (cleanSegments path) ++ if endsWithSlash path then ['/'] else [] := by
  rw [normalize, if_neg hne, normalizeSegments_eq h]
  simp only [hrelative, Bool.false_eq_true, if_false]

/-- An absolute path without `..`, resolved, has the same segments. -/
theorem normalizeSegments_resolve {path : List Char} (h : dots ∉ Texts.split '/' path) :
    normalizeSegments false (resolve path) = cleanSegments path := by
  rw [resolve, normalizeSegments_eq h]
  by_cases hnil : cleanSegments path = []
  · rw [hnil]
    rfl
  · have hclean : ∀ segment ∈ cleanSegments path, Clean segment ∧ '/' ∉ segment :=
      fun segment hmem => clean_of_mem_cleanSegments h hmem
    obtain ⟨hsplit, hself⟩ := cleanSegments_join hnil hclean
    have hdots : dots ∉ Texts.split '/' ('/' :: Texts.join '/' (cleanSegments path)) := by
      rw [Texts.split_separator, hsplit, List.mem_cons, not_or]
      exact ⟨by decide, fun hmem => (hclean dots hmem).1.2.2 rfl⟩
    rw [normalizeSegments_eq hdots, cleanSegments, Texts.split_separator, List.filter_cons]
    exact hself

/-- The way to another directory leads up, and then down to what is below. -/
theorem relativeSegments_eq (start target : List Segment) :
    ∃ n rest, relativeSegments start target = List.replicate n dots ++ rest ∧ rest <:+ target := by
  fun_induction relativeSegments start target with
  | case1 a start target ih =>
    obtain ⟨n, rest, heq, hsuffix⟩ := ih
    exact ⟨n, rest, heq, hsuffix.trans (List.suffix_cons _ _)⟩
  | case2 a start b target _ =>
    refine ⟨start.length + 1, b :: target, ?_, List.suffix_refl _⟩
    rw [List.replicate_succ, List.map_const']
  | case3 start target _ =>
    exact ⟨start.length, target, by rw [List.map_const'], List.suffix_refl _⟩

/-- Steps up at the beginning of a relative path are kept. -/
theorem foldl_push_replicate (m n : Nat) :
    (List.replicate n dots).foldl (push true) (List.replicate m dots) =
      List.replicate (m + n) dots := by
  induction n generalizing m with
  | zero => rfl
  | succ n ih =>
    have hpush : push true (List.replicate m dots) dots = List.replicate (m + 1) dots := by
      have hlast : ¬ (List.replicate m dots ≠ [] ∧
          (List.replicate m dots).getLast? ≠ some dots) := by
        rintro ⟨hne, hlast⟩
        cases m with
        | zero => exact hne rfl
        | succ m => exact hlast (by simp [List.getLast?_replicate])
      rw [push, if_neg (by decide), if_pos rfl, if_neg hlast, if_pos rfl, List.replicate_succ']
    rw [List.replicate_succ, List.foldl_cons, hpush, ih, Nat.add_assoc, Nat.add_comm 1 n]

/-- A way that leads up stays one when it is normalized. -/
theorem normalize_up (n : Nat) {rest : List Segment}
    (h : ∀ segment ∈ rest, Clean segment ∧ '/' ∉ segment) :
    normalize (Texts.join '/' (List.replicate (n + 1) dots ++ rest)) = dots ∨
      ['.', '.', '/'] <+: normalize (Texts.join '/' (List.replicate (n + 1) dots ++ rest)) := by
  have hcons : List.replicate (n + 1) dots ++ rest = dots :: (List.replicate n dots ++ rest) := rfl
  have hnoSlash : ∀ segment ∈ List.replicate (n + 1) dots ++ rest, '/' ∉ segment := by
    intro segment hmem
    rcases List.mem_append.mp hmem with hmem | hmem
    · rw [List.eq_of_mem_replicate hmem]
      decide
    · exact (h segment hmem).2
  have hsegments : ∀ allowAboveRoot, allowAboveRoot = true → normalizeSegments allowAboveRoot
      (Texts.join '/' (List.replicate (n + 1) dots ++ rest)) =
        List.replicate (n + 1) dots ++ rest := by
    rintro _ rfl
    have hdots : dots ∉ rest := fun hmem => (h dots hmem).1.2.2 rfl
    have hkept : rest.filter (fun segment => segment ≠ [] ∧ segment ≠ dot) = rest := by
      rw [List.filter_eq_self]
      exact fun segment hmem => decide_eq_true ⟨(h segment hmem).1.1, (h segment hmem).1.2.1⟩
    rw [normalizeSegments, Texts.split_join (by simp) hnoSlash, List.foldl_append,
      show ([] : List Segment) = List.replicate 0 dots from rfl, foldl_push_replicate,
      foldl_push hdots, hkept, Nat.zero_add]
  cases htail : List.replicate n dots ++ rest with
  | nil =>
    left
    rw [hcons, htail]
    rfl
  | cons next segments =>
    right
    have htext : Texts.join '/' (List.replicate (n + 1) dots ++ rest) =
        '.' :: '.' :: '/' :: Texts.join '/' (next :: segments) := by
      rw [hcons, htail]
      rfl
    have hrelative : isAbsolute (Texts.join '/' (List.replicate (n + 1) dots ++ rest)) = false := by
      rw [htext]
      rfl
    have hne : Texts.join '/' (List.replicate (n + 1) dots ++ rest) ≠ [] := by
      rw [htext]
      exact List.cons_ne_nil _ _
    have hsegmentsNe : List.replicate (n + 1) dots ++ rest ≠ [] := List.cons_ne_nil _ _
    rw [normalize, if_neg hne, hsegments _ (by rw [hrelative]; rfl)]
    dsimp only
    rw [if_neg hsegmentsNe, hrelative, if_neg Bool.false_ne_true, htext]
    exact ⟨_, rfl⟩

end PosixPath
