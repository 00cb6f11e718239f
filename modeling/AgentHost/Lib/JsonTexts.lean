import Mathlib
import AgentHost.Lib.NumberText

/-!
# The texts of parsed values

`JSON.stringify(value, null, gap)`, for every value that a JSON text stands for.

* `JsonValue.render` — the text, on one line where the gap is zero.
* `JsonValue.wellFormed` — the values that texts can stand for without loss: numbers are finite
  doubles, and objects name each member once.
* `JsonParse.parse_render` — **Main**: the text of such a value is read as that value.
* `JsonValue.stringify_injective` — so different values have different texts.
* `JsonParse.proper_of_parse` — what is read is well-formed but for infinite numbers.
-/

namespace JsonValue

open JsonParse

/-! ### Texts -/

/-- What stands before an item: nothing, or a new line with its indentation. -/
def lineBreak (gap depth : Nat) : List Char :=
  if gap = 0 then [] else '\n' :: List.replicate (gap * depth) ' '

/-- What stands between a name and its value. -/
def colon (gap : Nat) : List Char := if gap = 0 then [':'] else [':', ' ']

/-- A quoted string. -/
def quoted (s : String) : List Char := '"' :: ((Json.escapeChars s.toList).toList ++ ['"'])

mutual

/-- `JSON.stringify(value, null, gap)`, at a depth. -/
def render (gap depth : Nat) : JsonValue → List Char
  | .null => "null".toList
  | .bool true => "true".toList
  | .bool false => "false".toList
  | .number (some q) => NumberText.text q
  | .number none => "null".toList
  | .string s => quoted s
  | .array [] => ['[', ']']
  | .array (item :: items) =>
    '[' :: (lineBreak gap (depth + 1) ++ (render gap (depth + 1) item ++
      (moreItems gap (depth + 1) items ++ (lineBreak gap depth ++ [']']))))
  | .object [] => ['\x7b', '\x7d']
  | .object ((name, value) :: members) =>
    '\x7b' :: (lineBreak gap (depth + 1) ++ (quoted name ++ (colon gap ++
      (render gap (depth + 1) value ++ (moreMembers gap (depth + 1) members ++
        (lineBreak gap depth ++ ['\x7d']))))))

/-- The items behind the first one, each after a comma. -/
def moreItems (gap depth : Nat) : List JsonValue → List Char
  | [] => []
  | item :: items =>
    ',' :: (lineBreak gap depth ++ (render gap depth item ++ moreItems gap depth items))

/-- The members behind the first one, each after a comma. -/
def moreMembers (gap depth : Nat) : List (String × JsonValue) → List Char
  | [] => []
  | (name, value) :: members =>
    ',' :: (lineBreak gap depth ++ (quoted name ++ (colon gap ++ (render gap depth value ++
      moreMembers gap depth members))))

end

/-- Items with commas between them. -/
def renderItems (gap depth : Nat) (item : JsonValue) (items : List JsonValue) : List Char :=
  lineBreak gap depth ++ (render gap depth item ++ moreItems gap depth items)

/-- Members with commas between them. -/
def renderMembers (gap depth : Nat) (member : String × JsonValue)
    (members : List (String × JsonValue)) : List Char :=
  lineBreak gap depth ++ (quoted member.1 ++ (colon gap ++ (render gap depth member.2 ++
    moreMembers gap depth members)))

theorem render_array (gap depth : Nat) (item : JsonValue) (items : List JsonValue) :
    (array (item :: items)).render gap depth =
      '[' :: (renderItems gap (depth + 1) item items ++ (lineBreak gap depth ++ [']'])) := by
  simp only [render, renderItems, List.append_assoc]

theorem render_object (gap depth : Nat) (member : String × JsonValue)
    (members : List (String × JsonValue)) :
    (object (member :: members)).render gap depth =
      '\x7b' :: (renderMembers gap (depth + 1) member members ++
        (lineBreak gap depth ++ ['\x7d'])) := by
  obtain ⟨name, value⟩ := member
  simp only [render, renderMembers, List.append_assoc]

theorem renderItems_nil (gap depth : Nat) (item : JsonValue) :
    renderItems gap depth item [] = lineBreak gap depth ++ render gap depth item := by
  rw [renderItems, moreItems, List.append_nil]

theorem renderItems_cons (gap depth : Nat) (item next : JsonValue) (items : List JsonValue) :
    renderItems gap depth item (next :: items) =
      lineBreak gap depth ++ (render gap depth item ++ ',' :: renderItems gap depth next items) := by
  rw [renderItems, moreItems, renderItems]

theorem renderMembers_nil (gap depth : Nat) (name : String) (value : JsonValue) :
    renderMembers gap depth (name, value) [] =
      lineBreak gap depth ++ (quoted name ++ (colon gap ++ render gap depth value)) := by
  rw [renderMembers, moreMembers, List.append_nil]

theorem renderMembers_cons (gap depth : Nat) (name : String) (value : JsonValue)
    (next : String × JsonValue) (members : List (String × JsonValue)) :
    renderMembers gap depth (name, value) (next :: members) =
      lineBreak gap depth ++ (quoted name ++ (colon gap ++ (render gap depth value ++
        ',' :: renderMembers gap depth next members))) := by
  obtain ⟨name', value'⟩ := next
  rw [renderMembers, moreMembers, renderMembers]

/-- `JSON.stringify(value)`. -/
def stringify (value : JsonValue) : String := String.ofList (value.render 0 0)

/-- What a condition takes as true. -/
def truthy : JsonValue → Bool
  | .null => false
  | .bool b => b
  | .number (some q) => q ≠ 0
  | .number none => true
  | .string s => s ≠ ""
  | _ => true

/-! ### Well-formed values -/

mutual

/-- A value whose numbers are finite doubles and whose objects name each member once. -/
def wellFormed : JsonValue → Bool
  | .number (some q) => decide (Doubles.nearest q = some q)
  | .number none => false
  | .array items => wellFormedItems items
  | .object members => decide (members.map Prod.fst).Nodup && wellFormedMembers members
  | _ => true

def wellFormedItems : List JsonValue → Bool
  | [] => true
  | item :: items => wellFormed item && wellFormedItems items

def wellFormedMembers : List (String × JsonValue) → Bool
  | [] => true
  | (_, value) :: members => wellFormed value && wellFormedMembers members

end

theorem wellFormedItems_iff {items : List JsonValue} :
    wellFormedItems items = true ↔ ∀ item ∈ items, item.wellFormed = true := by
  induction items with
  | nil => simp [wellFormedItems]
  | cons item items ih => simp [wellFormedItems, ih]

theorem wellFormedMembers_iff {members : List (String × JsonValue)} :
    wellFormedMembers members = true ↔ ∀ member ∈ members, member.2.wellFormed = true := by
  induction members with
  | nil => simp [wellFormedMembers]
  | cons member members ih =>
    obtain ⟨name, value⟩ := member
    simp [wellFormedMembers, ih]

end JsonValue

namespace JsonParse

open JsonValue

/-! ### White space -/

theorem skipWhite_append {white : List Char} (h : ∀ c ∈ white, isWhite c = true)
    (rest : List Char) : skipWhite (white ++ rest) = skipWhite rest :=
  List.dropWhile_append_of_pos h

theorem isWhite_lineBreak (gap depth : Nat) : ∀ c ∈ lineBreak gap depth, isWhite c = true := by
  intro c hc
  unfold lineBreak at hc
  split at hc
  · cases hc
  · rcases List.mem_cons.mp hc with rfl | hc
    · decide
    · rw [List.eq_of_mem_replicate hc]
      decide

theorem skipWhite_lineBreak (gap depth : Nat) {c : Char} (hc : isWhite c = false)
    (rest : List Char) : skipWhite (lineBreak gap depth ++ c :: rest) = c :: rest := by
  rw [skipWhite_append (isWhite_lineBreak gap depth), skipWhite_cons hc]

/-- White space before a value is skipped. -/
theorem value_lineBreak (fuel gap depth : Nat) (text : List Char) :
    value fuel (lineBreak gap depth ++ text) = value fuel text := by
  cases fuel with
  | zero => rfl
  | succ fuel =>
    rw [value, skipWhite_append (isWhite_lineBreak gap depth)]
    rfl

theorem value_space (fuel : Nat) (text : List Char) : value fuel (' ' :: text) = value fuel text := by
  cases fuel with
  | zero => rfl
  | succ fuel => rfl

theorem endsNumber_lineBreak {gap depth : Nat} {c : Char} (rest : List Char)
    (h : c.isDigit = false ∧ c.toNat ≠ 46 ∧ c.toNat ≠ 101 ∧ c.toNat ≠ 69) :
    EndsNumber (lineBreak gap depth ++ c :: rest) := by
  unfold lineBreak
  split
  · exact endsNumber_cons rest h
  · exact endsNumber_cons _ (by decide)

/-! ### Beginnings -/

theorem isWhite_of_isDigit {c : Char} (h : c.isDigit = true) : 48 ≤ c.toNat ∧ c.toNat ≤ 57 := by
  simp only [Char.isDigit, Bool.and_eq_true, decide_eq_true_eq, ge_iff_le,
    UInt32.le_iff_toNat_le] at h
  exact h

theorem text_head_toNat {q : ℚ} (h : Doubles.nearest q = some q) :
    ∃ c cs, NumberText.text q = c :: cs ∧ (c.toNat = 45 ∨ 48 ≤ c.toNat ∧ c.toNat ≤ 57) := by
  obtain ⟨c, cs, htext, hc⟩ := NumberText.text_head h
  refine ⟨c, cs, htext, ?_⟩
  rcases hc with rfl | hc
  · exact .inl rfl
  · exact .inr (isWhite_of_isDigit hc)

/-- How the text of a value begins. -/
theorem render_head {v : JsonValue} (h : v.wellFormed = true) (gap depth : Nat) :
    ∃ c cs, v.render gap depth = c :: cs ∧ isWhite c = false ∧ c ≠ ']' := by
  match v, h with
  | .null, _ => exact ⟨'n', _, rfl, by decide, by decide⟩
  | .bool true, _ => exact ⟨'t', _, rfl, by decide, by decide⟩
  | .bool false, _ => exact ⟨'f', _, rfl, by decide, by decide⟩
  | .number (some q), h =>
    obtain ⟨c, cs, htext, hc⟩ := text_head_toNat (of_decide_eq_true h)
    refine ⟨c, cs, htext, ?_, ?_⟩
    · simp only [isWhite, Bool.or_eq_false_iff, decide_eq_false_iff_not]
      omega
    · rintro rfl
      revert hc
      decide
  | .string s, _ => exact ⟨'"', _, rfl, by decide, by decide⟩
  | .array [], _ => exact ⟨'[', _, rfl, by decide, by decide⟩
  | .array (_ :: _), _ => exact ⟨'[', _, rfl, by decide, by decide⟩
  | .object [], _ => exact ⟨'\x7b', _, rfl, by decide, by decide⟩
  | .object (_ :: _), _ => exact ⟨'\x7b', _, rfl, by decide, by decide⟩

/-- The first item follows a line break. -/
theorem renderItems_head {item : JsonValue} (h : item.wellFormed = true) (gap depth : Nat)
    (items : List JsonValue) :
    ∃ c cs, renderItems gap depth item items = lineBreak gap depth ++ c :: cs ∧
      isWhite c = false ∧ c ≠ ']' := by
  obtain ⟨c, cs, hhead, hwhite, hend⟩ := render_head h gap depth
  cases items with
  | nil => exact ⟨c, cs, by rw [renderItems_nil, hhead], hwhite, hend⟩
  | cons next items =>
    exact ⟨c, cs ++ ',' :: renderItems gap depth next items,
      by rw [renderItems_cons, hhead, List.cons_append], hwhite, hend⟩

theorem renderMembers_head (gap depth : Nat) (member : String × JsonValue)
    (members : List (String × JsonValue)) :
    ∃ cs, renderMembers gap depth member members = lineBreak gap depth ++ '"' :: cs := by
  exact ⟨_, rfl⟩

/-- The first member of an object is read. -/
theorem members_quoted {fuel : Nat} {read : List (String × JsonValue)} {name : String}
    {text rest : List Char} {v : JsonValue} (gap depth : Nat)
    (hvalue : value fuel text = some (v, rest)) :
    members (fuel + 1) read (lineBreak gap depth ++ (quoted name ++ (colon gap ++ text))) =
      match skipWhite rest with
      | ',' :: rest => members fuel (addMember read name v) rest
      | '\x7d' :: rest => some (addMember read name v, rest)
      | _ => none := by
  have hspaced : ∃ tail, colon gap ++ text = ':' :: tail ∧ value fuel tail = some (v, rest) := by
    unfold colon
    split
    · exact ⟨text, rfl, hvalue⟩
    · exact ⟨' ' :: text, rfl, by rw [value_space, hvalue]⟩
  obtain ⟨tail, hcolon, hread⟩ := hspaced
  have htext : quoted name ++ (colon gap ++ text) =
      '"' :: ((Json.escapeChars name.toList).toList ++ '"' :: ':' :: tail) := by
    rw [hcolon, quoted]
    simp
  rw [htext, members, skipWhite_lineBreak gap depth (by decide)]
  show ((string _).bind _ : Option _) = _
  rw [string_quote, Option.bind_some]
  dsimp only
  rw [skipWhite_cons (by decide)]
  show ((value fuel tail).bind _ : Option _) = _
  rw [hread]
  rfl

/-! ### Reading texts -/

/-- Every value that the fuel is enough for is read back. -/
def ReadsRendered (gap fuel : Nat) : Prop :=
  ∀ (v : JsonValue) (depth : Nat) (rest : List Char), v.wellFormed = true → EndsNumber rest →
    (v.render gap depth).length < fuel →
    value fuel (v.render gap depth ++ rest) = some (v, rest)

/-- Every list of items that the fuel is enough for is read back. -/
def ReadsRenderedItems (gap fuel : Nat) : Prop :=
  ∀ (item : JsonValue) (list : List JsonValue) (depth outer : Nat) (rest : List Char),
    wellFormedItems (item :: list) = true →
    (renderItems gap depth item list).length + 1 < fuel →
    items fuel (renderItems gap depth item list ++ (lineBreak gap outer ++ ']' :: rest)) =
      some (item :: list, rest)

/-- Every list of members that the fuel is enough for is read back. -/
def ReadsRenderedMembers (gap fuel : Nat) : Prop :=
  ∀ (member : String × JsonValue) (list read : List (String × JsonValue)) (depth outer : Nat)
    (rest : List Char), wellFormedMembers (member :: list) = true →
    (read.map Prod.fst ++ (member :: list).map Prod.fst).Nodup →
    (renderMembers gap depth member list).length + 1 < fuel →
    members fuel read
        (renderMembers gap depth member list ++ (lineBreak gap outer ++ '\x7d' :: rest)) =
      some (read ++ member :: list, rest)

theorem value_text {fuel : Nat} {q : ℚ} (h : Doubles.nearest q = some q) {rest : List Char}
    (hrest : EndsNumber rest) :
    value (fuel + 1) (NumberText.text q ++ rest) = some (.number (some q), rest) := by
  have hnumber := NumberText.number_text h hrest
  obtain ⟨c, cs, htext, hc⟩ := text_head_toNat h
  rw [htext, List.cons_append] at hnumber ⊢
  have hwhite : isWhite c = false := by
    simp only [isWhite, Bool.or_eq_false_iff, decide_eq_false_iff_not]
    omega
  rw [value, skipWhite_cons hwhite]
  dsimp only
  rw [if_neg (by omega), if_neg (by omega), if_neg (by omega), if_neg (by omega),
    if_neg (by omega), if_neg (by omega)]
  exact hnumber

theorem value_renderedArray {gap fuel : Nat} (hread : ReadsRenderedItems gap fuel)
    {item : JsonValue} {list : List JsonValue} (h : wellFormedItems (item :: list) = true)
    {depth : Nat} {rest : List Char}
    (hfuel : ((JsonValue.array (item :: list)).render gap depth).length < fuel + 1) :
    value (fuel + 1) ((JsonValue.array (item :: list)).render gap depth ++ rest) =
      some (.array (item :: list), rest) := by
  have htext : (JsonValue.array (item :: list)).render gap depth ++ rest =
      '[' :: (renderItems gap (depth + 1) item list ++ (lineBreak gap depth ++ ']' :: rest)) := by
    simp [render_array]
  have hlength : (renderItems gap (depth + 1) item list).length + 1 < fuel := by
    simp only [render_array, List.length_cons, List.length_append, List.length_nil] at hfuel
    omega
  have hitems := hread item list (depth + 1) depth rest h hlength
  rw [htext, value, skipWhite_cons (by decide)]
  dsimp only
  rw [if_neg (by decide), if_pos (by decide)]
  -- the first item is not the end of the array
  have hitem := wellFormedItems_iff.mp h item List.mem_cons_self
  obtain ⟨c, cs, hfirst, hwhite, hend⟩ := renderItems_head hitem gap (depth + 1) list
  have hskip : skipWhite (renderItems gap (depth + 1) item list ++
      (lineBreak gap depth ++ ']' :: rest)) = c :: (cs ++ (lineBreak gap depth ++ ']' :: rest)) := by
    rw [hfirst, List.append_assoc, List.cons_append, skipWhite_lineBreak _ _ hwhite]
  have hsame : items fuel (c :: (cs ++ (lineBreak gap depth ++ ']' :: rest))) =
      some (item :: list, rest) := by
    rw [← hitems, hfirst, List.append_assoc, List.cons_append]
    cases fuel with
    | zero => rfl
    | succ fuel => rw [items, items, value_lineBreak]
  rw [hskip]
  split
  · next heq => exact absurd (List.cons.inj heq).1 hend
  · rw [hsame]
    rfl

theorem value_renderedObject {gap fuel : Nat} (hread : ReadsRenderedMembers gap fuel)
    {member : String × JsonValue} {list : List (String × JsonValue)}
    (h : (JsonValue.object (member :: list)).wellFormed = true) {depth : Nat} {rest : List Char}
    (hfuel : ((JsonValue.object (member :: list)).render gap depth).length < fuel + 1) :
    value (fuel + 1) ((JsonValue.object (member :: list)).render gap depth ++ rest) =
      some (.object (member :: list), rest) := by
  have htext : (JsonValue.object (member :: list)).render gap depth ++ rest =
      '\x7b' :: (renderMembers gap (depth + 1) member list ++
        (lineBreak gap depth ++ '\x7d' :: rest)) := by
    simp [render_object]
  have hlength : (renderMembers gap (depth + 1) member list).length + 1 < fuel := by
    simp only [render_object, List.length_cons, List.length_append, List.length_nil] at hfuel
    omega
  rw [JsonValue.wellFormed, Bool.and_eq_true] at h
  have hmembers := hread member list [] (depth + 1) depth rest h.2 (of_decide_eq_true h.1) hlength
  rw [htext, value, skipWhite_cons (by decide)]
  dsimp only
  rw [if_neg (by decide), if_neg (by decide), if_pos (by decide)]
  obtain ⟨cs, hfirst⟩ := renderMembers_head gap (depth + 1) member list
  have hskip : skipWhite (renderMembers gap (depth + 1) member list ++
      (lineBreak gap depth ++ '\x7d' :: rest)) =
        '"' :: (cs ++ (lineBreak gap depth ++ '\x7d' :: rest)) := by
    rw [hfirst, List.append_assoc, List.cons_append, skipWhite_lineBreak _ _ (by decide)]
  have hsame : members fuel [] ('"' :: (cs ++ (lineBreak gap depth ++ '\x7d' :: rest))) =
      some (member :: list, rest) := by
    rw [← List.nil_append (member :: list), ← hmembers, hfirst, List.append_assoc,
      List.cons_append]
    cases fuel with
    | zero => rfl
    | succ fuel =>
      rw [members, members, skipWhite_lineBreak _ _ (by decide), skipWhite_cons (by decide)]
  rw [hskip]
  split
  · next heq => exact absurd (List.cons.inj heq).1 (by decide)
  · rw [hsame]
    rfl

theorem readsRendered_succ {gap fuel : Nat} (hitems : ReadsRenderedItems gap fuel)
    (hmembers : ReadsRenderedMembers gap fuel) : ReadsRendered gap (fuel + 1) := by
  intro v depth rest h hrest hfuel
  match v, h with
  | .null, _ => rfl
  | .bool true, _ => rfl
  | .bool false, _ => rfl
  | .number (some q), h => exact value_text (of_decide_eq_true h) hrest
  | .string s, _ =>
    have htext : (JsonValue.string s).render gap depth ++ rest =
        '"' :: ((Json.escapeChars s.toList).toList ++ '"' :: rest) := by
      simp [render, quoted]
    rw [htext, value, skipWhite_cons (by decide)]
    show ((string _).map _ : Option _) = _
    rw [string_quote]
    rfl
  | .array [], _ => rfl
  | .array (item :: list), h => exact value_renderedArray hitems h hfuel
  | .object [], _ => rfl
  | .object (member :: list), h => exact value_renderedObject hmembers h hfuel

theorem readsRenderedItems_succ {gap fuel : Nat} (hvalues : ReadsRendered gap fuel)
    (hitems : ReadsRenderedItems gap fuel) : ReadsRenderedItems gap (fuel + 1) := by
  intro item list depth outer rest h hfuel
  rw [wellFormedItems, Bool.and_eq_true] at h
  cases list with
  | nil =>
    have hlength : (item.render gap depth).length < fuel := by
      simp only [renderItems_nil, List.length_append] at hfuel
      omega
    have hvalue := hvalues item depth (lineBreak gap outer ++ ']' :: rest) h.1
      (endsNumber_lineBreak rest (by decide)) hlength
    rw [renderItems_nil, List.append_assoc, items, value_lineBreak, hvalue, Option.bind_eq_bind,
      Option.bind_some]
    dsimp only
    rw [skipWhite_lineBreak _ _ (by decide)]
    rfl
  | cons next list =>
    have hlength : (item.render gap depth).length < fuel ∧
        (renderItems gap depth next list).length + 1 < fuel := by
      simp only [renderItems_cons, List.length_append, List.length_cons] at hfuel
      omega
    have hvalue := hvalues item depth
      (',' :: (renderItems gap depth next list ++ (lineBreak gap outer ++ ']' :: rest))) h.1
      (endsNumber_cons _ (by decide)) hlength.1
    have hrest := hitems next list depth outer rest h.2 hlength.2
    rw [renderItems_cons, List.append_assoc, List.append_assoc, List.cons_append, items,
      value_lineBreak, hvalue]
    show ((items fuel _).map _ : Option _) = _
    rw [hrest]
    rfl

theorem readsRenderedMembers_succ {gap fuel : Nat} (hvalues : ReadsRendered gap fuel)
    (hmembers : ReadsRenderedMembers gap fuel) : ReadsRenderedMembers gap (fuel + 1) := by
  rintro ⟨name, v⟩ list read depth outer rest h hnames hfuel
  rw [wellFormedMembers, Bool.and_eq_true] at h
  have hnew := not_mem_of_nodup_append hnames
  cases list with
  | nil =>
    have hlength : (v.render gap depth).length < fuel := by
      simp only [renderMembers_nil, List.length_append] at hfuel
      omega
    have hvalue := hvalues v depth (lineBreak gap outer ++ '\x7d' :: rest) h.1
      (endsNumber_lineBreak rest (by decide)) hlength
    rw [renderMembers_nil, List.append_assoc, List.append_assoc, List.append_assoc,
      members_quoted gap depth hvalue, addMember_of_not_mem hnew,
      skipWhite_lineBreak _ _ (by decide)]
    rfl
  | cons next list =>
    have hlength : (v.render gap depth).length < fuel ∧
        (renderMembers gap depth next list).length + 1 < fuel := by
      simp only [renderMembers_cons, List.length_append, List.length_cons] at hfuel
      omega
    have hvalue := hvalues v depth
      (',' :: (renderMembers gap depth next list ++ (lineBreak gap outer ++ '\x7d' :: rest))) h.1
      (endsNumber_cons _ (by decide)) hlength.1
    have hrest := hmembers next list (read ++ [(name, v)]) depth outer rest h.2
      (by simpa using hnames) hlength.2
    rw [renderMembers_cons, List.append_assoc, List.append_assoc, List.append_assoc,
      List.append_assoc, List.cons_append, members_quoted gap depth hvalue,
      addMember_of_not_mem hnew]
    show members fuel _ _ = _
    rw [hrest, List.append_assoc]
    rfl

/-- **Main.** The text of a well-formed value is read back, with enough fuel. -/
theorem readsRendered (gap fuel : Nat) : ReadsRendered gap fuel := by
  have hall : ReadsRendered gap fuel ∧ ReadsRenderedItems gap fuel ∧
      ReadsRenderedMembers gap fuel := by
    -- every recursive call of the parser has less fuel
    induction fuel with
    | zero =>
      exact ⟨fun _ _ _ _ _ h => absurd h (Nat.not_lt_zero _),
        fun _ _ _ _ _ _ h => absurd h (Nat.not_lt_zero _),
        fun _ _ _ _ _ _ _ _ h => absurd h (Nat.not_lt_zero _)⟩
    | succ fuel ih =>
      obtain ⟨hvalues, hitems, hmembers⟩ := ih
      exact ⟨readsRendered_succ hitems hmembers, readsRenderedItems_succ hvalues hitems,
        readsRenderedMembers_succ hvalues hmembers⟩
  exact hall.1

/-- **Main.** Reading the text of a well-formed value yields the value; white space may follow. -/
theorem parse_render {v : JsonValue} (h : v.wellFormed = true) (gap : Nat) {white : List Char}
    (hwhite : ∀ c ∈ white, isWhite c = true) :
    parse (String.ofList (v.render gap 0 ++ white)) = some v := by
  have hends : EndsNumber white := by
    intro c hc
    have hmem := hwhite c (List.mem_of_mem_head? hc)
    simp only [isWhite, Bool.or_eq_true, decide_eq_true_eq] at hmem
    refine ⟨?_, by omega, by omega, by omega⟩
    by_contra hdigit
    have := isWhite_of_isDigit (Bool.not_eq_false _ ▸ hdigit)
    omega
  have hvalue := readsRendered gap ((v.render gap 0 ++ white).length + 1) v 0 white h hends
    (by rw [List.length_append]; omega)
  have hskip : skipWhite white = [] := by
    rw [← List.append_nil white, skipWhite_append hwhite]
    rfl
  rw [parse, String.toList_ofList, hvalue]
  dsimp only
  rw [hskip]
  rfl

theorem parse_stringify_value {v : JsonValue} (h : v.wellFormed = true) :
    parse v.stringify = some v := by
  have hwhite : ∀ c ∈ ([] : List Char), isWhite c = true := by simp
  have hread := parse_render h 0 hwhite
  rwa [List.append_nil] at hread

end JsonParse

/-- Different well-formed values have different texts. -/
theorem JsonValue.stringify_injective {v w : JsonValue} (hv : v.wellFormed = true)
    (hw : w.wellFormed = true) (h : v.stringify = w.stringify) : v = w := by
  have hread := JsonParse.parse_stringify_value hv
  rw [h, JsonParse.parse_stringify_value hw] at hread
  exact (Option.some.inj hread).symm

/-! ### What is read -/

namespace JsonValue

mutual

/-- A value whose numbers are doubles and whose objects name each member once. -/
def proper : JsonValue → Bool
  | .number (some q) => decide (Doubles.nearest q = some q)
  | .array items => properItems items
  | .object members => decide (members.map Prod.fst).Nodup && properMembers members
  | _ => true

def properItems : List JsonValue → Bool
  | [] => true
  | item :: items => proper item && properItems items

def properMembers : List (String × JsonValue) → Bool
  | [] => true
  | (_, value) :: members => proper value && properMembers members

end

theorem properMembers_iff {members : List (String × JsonValue)} :
    properMembers members = true ↔ ∀ member ∈ members, member.2.proper = true := by
  induction members with
  | nil => simp [properMembers]
  | cons member members ih =>
    obtain ⟨name, value⟩ := member
    simp [properMembers, ih]

end JsonValue

namespace JsonParse

open JsonValue

/-- Members with names of their own and proper values. -/
def ProperMembers (list : List (String × JsonValue)) : Prop :=
  (list.map Prod.fst).Nodup ∧ ∀ member ∈ list, member.2.proper = true

theorem properMembers_addMember {list : List (String × JsonValue)} (h : ProperMembers list)
    (name : String) {v : JsonValue} (hv : v.proper = true) : ProperMembers (addMember list name v) := by
  obtain ⟨hnames, hvalues⟩ := h
  unfold addMember
  split
  · constructor
    · have hsame : (list.map fun member => if member.1 = name then (name, v) else member).map
          Prod.fst = list.map Prod.fst := by
        rw [List.map_map]
        refine List.map_congr_left fun member _ => ?_
        by_cases hname : member.1 = name
        · simp [hname]
        · simp [hname]
      rwa [hsame]
    · intro member hmember
      obtain ⟨old, hold, rfl⟩ := List.mem_map.mp hmember
      split
      · exact hv
      · exact hvalues old hold
  · next hnew =>
    constructor
    · rw [List.map_append, List.nodup_append]
      refine ⟨hnames, by simp, ?_⟩
      rintro a ha b hb rfl
      obtain rfl := List.mem_singleton.mp hb
      obtain ⟨member, hmember, hname⟩ := List.mem_map.mp ha
      refine hnew (List.any_eq_true.mpr ⟨member, hmember, ?_⟩)
      simpa using hname
    · intro member hmember
      rcases List.mem_append.mp hmember with hmember | hmember
      · exact hvalues member hmember
      · rw [List.mem_singleton.mp hmember]
        exact hv

theorem proper_number {text rest : List Char} {v : JsonValue} (h : number text = some (v, rest)) :
    v.proper = true := by
  have hnumber : ∃ x, v = .number (Doubles.nearest x) := by
    unfold number at h
    split at h
    · obtain ⟨p, _, heq⟩ := Option.map_eq_some_iff.mp h
      cases heq
      exact ⟨_, rfl⟩
    · obtain ⟨p, _, heq⟩ := Option.map_eq_some_iff.mp h
      cases heq
      exact ⟨_, rfl⟩
  obtain ⟨x, rfl⟩ := hnumber
  cases hx : Doubles.nearest x with
  | none => rfl
  | some q => exact decide_eq_true (Doubles.nearest_nearest hx)

/-- What is read with some fuel is proper. -/
def ReadsProper (fuel : Nat) : Prop :=
  (∀ text v rest, value fuel text = some (v, rest) → v.proper = true) ∧
    (∀ text list rest, items fuel text = some (list, rest) → properItems list = true) ∧
    ∀ read text list rest, ProperMembers read → members fuel read text = some (list, rest) →
      ProperMembers list

theorem readsProper (fuel : Nat) : ReadsProper fuel := by
  induction fuel with
  | zero =>
    refine ⟨?_, ?_, ?_⟩
    · intro _ _ _ h
      cases h
    · intro _ _ _ h
      cases h
    · intro _ _ _ _ _ h
      cases h
  | succ fuel ih =>
    obtain ⟨hvalue, hitems, hmembers⟩ := ih
    refine ⟨?_, ?_, ?_⟩
    · intro text v rest h
      rw [value] at h
      split at h
      · cases h
      split at h
      · obtain ⟨_, _, heq⟩ := Option.map_eq_some_iff.mp h
        cases heq
        rfl
      split at h
      · split at h
        · cases h
          rfl
        · obtain ⟨p, hread, heq⟩ := Option.map_eq_some_iff.mp h
          cases heq
          exact hitems _ _ _ hread
      split at h
      · split at h
        · cases h
          rfl
        · obtain ⟨p, hread, heq⟩ := Option.map_eq_some_iff.mp h
          cases heq
          obtain ⟨hnames, hvalues⟩ := hmembers [] _ _ _ ⟨List.nodup_nil, by simp⟩ hread
          rw [proper, Bool.and_eq_true]
          exact ⟨decide_eq_true hnames, properMembers_iff.mpr hvalues⟩
      split at h
      · obtain ⟨_, _, heq⟩ := Option.map_eq_some_iff.mp h
        cases heq
        rfl
      split at h
      · obtain ⟨_, _, heq⟩ := Option.map_eq_some_iff.mp h
        cases heq
        rfl
      split at h
      · obtain ⟨_, _, heq⟩ := Option.map_eq_some_iff.mp h
        cases heq
        rfl
      · exact proper_number h
    · intro text list rest h
      rw [items] at h
      obtain ⟨⟨item, tail⟩, hread, h⟩ := Option.bind_eq_some_iff.mp h
      have hitem := hvalue _ _ _ hread
      dsimp only at h
      split at h
      · obtain ⟨p, hrest, heq⟩ := Option.map_eq_some_iff.mp h
        cases heq
        rw [properItems, hitem, hitems _ _ _ hrest]
        rfl
      · cases h
        rw [properItems, hitem]
        rfl
      · cases h
    · intro read text list rest hread h
      rw [members] at h
      split at h
      swap
      · cases h
      obtain ⟨⟨name, tail⟩, _, h⟩ := Option.bind_eq_some_iff.mp h
      dsimp only at h
      split at h
      swap
      · cases h
      obtain ⟨⟨v, tail'⟩, hv, h⟩ := Option.bind_eq_some_iff.mp h
      have hadded := properMembers_addMember hread name (hvalue _ _ _ hv)
      dsimp only at h
      split at h
      · exact hmembers _ _ _ _ hadded h
      · cases h
        exact hadded
      · cases h

/-- What a text stands for is proper. -/
theorem proper_of_parse {text : String} {v : JsonValue} (h : parse text = some v) :
    v.proper = true := by
  unfold parse at h
  split at h
  · next w rest hread =>
    split at h
    · cases h
      exact (readsProper _).1 _ _ _ hread
    · cases h
  · cases h

end JsonParse
