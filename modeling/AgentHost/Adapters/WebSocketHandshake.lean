import AgentHost.Adapters.WebSocketSessions

namespace AgentHost

/-!
# The opening handshake of the websocket wire

A response that accepts the upgrade opens the wire.

* `boundaryIndex_response` — the first boundary is the end of the response.
* `splitLines_response` — the text before it is split into the lines.
* `headerGet_of_named` — a header is found by its name.
* `mem_splitOptions` — an option of a value is one of the parts it is split into.
* `WebSocketWire.reaches_response` — the response opens the wire.
-/

open WebSocket (Response Header caseless headersNamed IsToken IsOptionalSpace HasOption IsBase64)

/-! ### The boundary -/

/-- The lines of a response, joined. -/
def joinLines (first : List UInt8) (lines : List (List UInt8)) : List UInt8 :=
  first ++ lines.flatMap fun line => WebSocket.lineEnd ++ line

theorem response_bytes (response : Response) :
    response.bytes = joinLines response.status response.lines ++ handshakeBoundary := by
  have hjoin : ∀ (lines : List (List UInt8)) (first : List UInt8),
      (first :: lines).flatMap (fun line => line ++ WebSocket.lineEnd)
        = joinLines first lines ++ WebSocket.lineEnd := by
    intro lines
    induction lines with
    | nil => intro first; simp [joinLines]
    | cons line lines ih =>
      intro first
      rw [List.flatMap_cons, ih line]
      simp [joinLines, List.append_assoc]
  rw [Response.bytes, hjoin, List.append_assoc]
  rfl

/-- A line without a carriage return is passed over. -/
theorem boundaryIndex_line {line tail : List UInt8} (hline : 13 ∉ line) (htail : tail.head? ≠ some 13) :
    boundaryIndex (line ++ 13 :: 10 :: tail)
      = (boundaryIndex tail).map (· + (line.length + 2)) := by
  induction line with
  | nil =>
    have hfirst : handshakeBoundary.isPrefixOf (13 :: 10 :: tail) = false := by
      cases tail with
      | nil => rfl
      | cons b bs =>
        have hne : (13 : UInt8) ≠ b := fun heq => htail (by rw [← heq]; rfl)
        simp [handshakeBoundary, List.isPrefixOf, hne]
    have hsecond : handshakeBoundary.isPrefixOf (10 :: tail) = false := by
      simp [handshakeBoundary, List.isPrefixOf]
    rw [List.nil_append, boundaryIndex, hfirst, boundaryIndex, hsecond]
    cases boundaryIndex tail <;> simp
  | cons b bs ih =>
    obtain ⟨hb, hbs⟩ := not_or.mp (mt List.mem_cons.mpr hline)
    have hprefix : handshakeBoundary.isPrefixOf (b :: (bs ++ 13 :: 10 :: tail)) = false := by
      simp [handshakeBoundary, List.isPrefixOf, hb]
    rw [List.cons_append, boundaryIndex, hprefix, ih hbs]
    cases boundaryIndex tail with
    | none => rfl
    | some i =>
      simp
      omega

theorem boundaryIndex_last {line : List UInt8} (hline : 13 ∉ line) (tail : List UInt8) :
    boundaryIndex (line ++ handshakeBoundary ++ tail) = some line.length := by
  induction line with
  | nil => rfl
  | cons b bs ih =>
    obtain ⟨hb, hbs⟩ := not_or.mp (mt List.mem_cons.mpr hline)
    have hprefix : handshakeBoundary.isPrefixOf (b :: (bs ++ handshakeBoundary ++ tail)) = false := by
      simp [handshakeBoundary, List.isPrefixOf, hb]
    rw [List.cons_append, List.cons_append, boundaryIndex, hprefix, ih hbs]
    rfl

/-- The first boundary of a response without empty lines is its end. -/
theorem boundaryIndex_response {lines : List (List UInt8)} {first : List UInt8}
    (hfirst : 13 ∉ first) (hlines : ∀ line ∈ lines, 13 ∉ line ∧ line ≠ []) (tail : List UInt8) :
    boundaryIndex (joinLines first lines ++ handshakeBoundary ++ tail)
      = some (joinLines first lines).length := by
  induction lines generalizing first with
  | nil =>
    have hjoin : joinLines first [] = first := by simp [joinLines]
    rw [hjoin]
    exact boundaryIndex_last hfirst tail
  | cons line lines ih =>
    obtain ⟨hline, hne⟩ := hlines line List.mem_cons_self
    have hjoin : joinLines first (line :: lines)
        = first ++ 13 :: 10 :: joinLines line lines := by
      simp [joinLines, WebSocket.lineEnd]
    have hhead : (joinLines line lines ++ handshakeBoundary ++ tail).head? ≠ some 13 := by
      cases line with
      | nil => exact absurd rfl hne
      | cons b bs =>
        intro heq
        have hb : b = 13 := Option.some.inj heq
        exact hline (hb ▸ List.mem_cons_self)
    have hrest := ih hline fun l hl => hlines l (List.mem_cons_of_mem _ hl)
    rw [hjoin, List.append_assoc, List.append_assoc, List.cons_append, List.cons_append,
      ← List.append_assoc (joinLines line lines), boundaryIndex_line hfirst hhead, hrest]
    simp
    omega

/-! ### The lines -/

theorem splitLines_last {line : List Char} (h : '\r' ∉ line) : splitLines line = [line] := by
  induction line with
  | nil => rfl
  | cons c cs ih =>
    obtain ⟨hc, hcs⟩ := not_or.mp (mt List.mem_cons.mpr h)
    rw [splitLines, ih hcs]
    exact fun _ heq _ => hc heq.symm

theorem splitLines_line {line : List Char} (h : '\r' ∉ line) (tail : List Char) :
    splitLines (line ++ '\r' :: '\n' :: tail) = line :: splitLines tail := by
  induction line with
  | nil => rfl
  | cons c cs ih =>
    obtain ⟨hc, hcs⟩ := not_or.mp (mt List.mem_cons.mpr h)
    rw [List.cons_append, splitLines, ih hcs]
    exact fun _ heq _ => hc heq.symm

theorem noReturn_of_line {line : List UInt8} (h : 13 ∉ line) : '\r' ∉ Utf8.decodeLossy line :=
  fun hmem => h (Utf8.mem_of_mem_decode (b := 13) (by decide) (by decide) hmem)

/-- The text of a response is split into the texts of its lines. -/
theorem splitLines_response (first : List UInt8) {lines : List (List UInt8)}
    (h : ∀ line ∈ first :: lines, 13 ∉ line) :
    splitLines (Utf8.decodeLossy (joinLines first lines))
      = (first :: lines).map Utf8.decodeLossy := by
  induction lines generalizing first with
  | nil =>
    have hjoin : joinLines first [] = first := by simp [joinLines]
    rw [hjoin, splitLines_last (noReturn_of_line (h first List.mem_cons_self))]
    rfl
  | cons line lines ih =>
    have hjoin : joinLines first (line :: lines)
        = first ++ 13 :: ([] ++ 10 :: joinLines line lines) := by
      simp [joinLines, WebSocket.lineEnd]
    have htext : Utf8.decodeLossy (joinLines first (line :: lines))
        = Utf8.decodeLossy first ++ '\r' :: '\n' :: Utf8.decodeLossy (joinLines line lines) := by
      rw [hjoin, Utf8.decodeLossy_ascii (b := 13) (by decide),
        Utf8.decodeLossy_ascii (b := 10) (by decide)]
      rfl
    rw [htext, splitLines_line (noReturn_of_line (h first List.mem_cons_self)),
      ih _ fun l hl => h l (List.mem_cons_of_mem _ hl)]
    rfl

/-! ### Names and values -/

theorem isSpace_of_optional {text : List Char} (h : IsOptionalSpace text) :
    ∀ c ∈ text, isSpace c = true := by
  intro c hc
  obtain rfl | rfl := h c hc <;> decide

theorem token_noSpace {text : List Char} (h : IsToken text) : ∀ c ∈ text, isSpace c = false := by
  intro c hc
  obtain ⟨hlow, hhigh, _⟩ := h.2 c hc
  simp only [isSpace, Bool.or_eq_false_iff, Bool.and_eq_false_iff, decide_eq_false_iff_not]
  omega

theorem dropWhile_space {spaces text : List Char} (hspaces : ∀ c ∈ spaces, isSpace c = true)
    (htext : ∀ c ∈ text.head?, isSpace c = false) :
    (spaces ++ text).dropWhile isSpace = text := by
  rw [List.dropWhile_append_of_pos hspaces]
  cases text with
  | nil => rfl
  | cons c cs => exact List.dropWhile_cons_of_neg (by simp [htext c rfl])

/-- Space on both sides of a text without space is trimmed. -/
theorem trim_spaces {before text after : List Char} (hbefore : ∀ c ∈ before, isSpace c = true)
    (htext : ∀ c ∈ text, isSpace c = false) (hafter : ∀ c ∈ after, isSpace c = true) :
    trim (before ++ text ++ after) = text := by
  have hreverse : ∀ c ∈ after.reverse, isSpace c = true := fun c hc =>
    hafter c (List.mem_reverse.mp hc)
  have hend : (after.reverse ++ text.reverse).dropWhile isSpace = text.reverse := by
    refine dropWhile_space hreverse fun c hc => htext c ?_
    exact List.mem_reverse.mp (List.mem_of_mem_head? hc)
  rw [trim, List.append_assoc]
  cases text with
  | nil =>
    have hall : ∀ c ∈ before ++ after, isSpace c = true := by
      intro c hc
      exact (List.mem_append.mp hc).elim (hbefore c) (hafter c)
    have hdrop : (before ++ after).dropWhile isSpace = [] := by
      have hnone := dropWhile_space hall fun c (hc : c ∈ ([] : List Char).head?) => (by cases hc)
      rwa [List.append_nil] at hnone
    rw [List.nil_append, hdrop]
    rfl
  | cons c cs =>
    rw [dropWhile_space hbefore fun d hd => htext d (by
      obtain rfl := Option.some.inj hd
      exact List.mem_cons_self), List.reverse_append, hend, List.reverse_reverse]

theorem trim_token {text : List Char} (h : IsToken text) : trim text = text := by
  have hnone : ∀ c ∈ ([] : List Char), isSpace c = true := fun c hc => absurd hc List.not_mem_nil
  have htrim := trim_spaces hnone (token_noSpace h) hnone
  rwa [List.nil_append, List.append_nil] at htrim

/-- ASCII is lowered letter by letter. -/
theorem lower_of_ascii {text : List Char} (h : ∀ c ∈ text, c.toNat ≤ 0x7E) :
    lower text = caseless text := by
  induction text with
  | nil => rfl
  | cons c cs ih =>
    have hc := h c List.mem_cons_self
    have hlow : lowerChar c = [c.toLower] := by
      rw [lowerChar, if_neg (by omega), if_neg (by omega)]
    show lowerChar c ++ lower cs = _
    rw [hlow, ih fun d hd => h d (List.mem_cons_of_mem _ hd)]
    rfl

/-- Where capitals alone make the difference to an ASCII text, the text is ASCII itself. -/
theorem ascii_of_caseless {text small : List Char} (hsmall : ∀ c ∈ small, c.toNat ≤ 0x7E)
    (h : caseless text = small) : ∀ c ∈ text, c.toNat ≤ 0x7E := by
  intro c hc
  have hlow : c.toLower.toNat ≤ 0x7E := hsmall _ (h ▸ List.mem_map_of_mem hc)
  unfold Char.toLower at hlow
  split at hlow
  · next hupper =>
    have hle : c.toNat ≤ 90 := hupper.2
    omega
  · exact hlow

theorem token_ascii {text : List Char} (h : IsToken text) : ∀ c ∈ text, c.toNat ≤ 0x7E :=
  fun c hc => (h.2 c hc).2.1

/-- A line of a response is read as its name and its value. -/
theorem headerOf_text {header : Header} (hname : IsToken header.name) :
    headerOf header.text = some (caseless header.name,
      trim (header.before ++ header.value ++ header.after)) := by
  have htake : header.text.takeWhile (· ≠ ':') = header.name := by
    rw [Header.text, List.takeWhile_append_of_pos fun c hc => by
      simpa using (hname.2 c hc).2.2.1]
    rw [List.takeWhile_cons_of_neg (by simp), List.append_nil]
  have hlength : header.name.length ≠ header.text.length := by
    rw [Header.text, List.length_append, List.length_cons]
    omega
  rw [headerOf, htake, if_neg (not_or.mpr ⟨hname.1, hlength⟩), trim_token hname,
    lower_of_ascii (token_ascii hname)]
  have hdrop : header.text.drop (header.name.length + 1)
      = header.before ++ header.value ++ header.after := by
    rw [Header.text, ← List.drop_drop, List.drop_left]
    rfl
  rw [hdrop]

/-- The name and the value of every line. -/
def readHeaders (headers : List Header) : List (List Char × List Char) :=
  headers.map fun header =>
    (caseless header.name, trim (header.before ++ header.value ++ header.after))

theorem headersOf_texts {headers : List Header} (h : ∀ header ∈ headers, IsToken header.name) :
    headersOf (headers.map Header.text) = some (readHeaders headers) := by
  induction headers with
  | nil => rfl
  | cons header headers ih =>
    have hrest : (headers.map Header.text).mapM headerOf = some (readHeaders headers) :=
      ih fun x hx => h x (List.mem_cons_of_mem _ hx)
    rw [headersOf, List.map_cons, List.mapM_cons, headerOf_text (h header List.mem_cons_self),
      hrest]
    rfl

/-- The last header with a name is found by it. -/
theorem headerGet_eq (headers : List Header) (name : String) :
    headerGet (readHeaders headers) name = (headersNamed headers name).getLast?.map fun header =>
      trim (header.before ++ header.value ++ header.after) := by
  rw [headerGet, ← List.head?_filter, List.filter_reverse, List.head?_reverse, readHeaders,
    List.filter_map, List.getLast?_map, Option.map_map]
  rfl

theorem headerGet_of_named {headers : List Header} {header : Header} {name : String}
    (h : headersNamed headers name = [header]) :
    headerGet (readHeaders headers) name
      = some (trim (header.before ++ header.value ++ header.after)) := by
  rw [headerGet_eq, h]
  rfl

theorem headerGet_none {headers : List Header} {name : String}
    (h : headersNamed headers name = []) : headerGet (readHeaders headers) name = none := by
  rw [headerGet_eq, h]
  rfl

theorem mem_of_named {headers : List Header} {header : Header} {name : String}
    (h : headersNamed headers name = [header]) : header ∈ headers := by
  have hmem : header ∈ headersNamed headers name := h ▸ List.mem_singleton_self header
  exact List.mem_of_mem_filter hmem

/-! ### Options -/

/-- A part of a text between commas, within space. -/
def HasPart (text part : List Char) : Prop :=
  ∃ left before after right, text = left ++ before ++ part ++ after ++ right ∧
    (∀ c ∈ before, isSpace c = true) ∧ (∀ c ∈ after, isSpace c = true) ∧
    (left = [] ∨ ∃ l, left = l ++ [',']) ∧ (right = [] ∨ ∃ r, right = ',' :: r)

theorem HasPart.reverse {text part : List Char} (h : HasPart text part) :
    HasPart text.reverse part.reverse := by
  obtain ⟨left, before, after, right, rfl, hbefore, hafter, hleft, hright⟩ := h
  refine ⟨right.reverse, after.reverse, before.reverse, left.reverse, ?_,
    fun c hc => hafter c (List.mem_reverse.mp hc),
    fun c hc => hbefore c (List.mem_reverse.mp hc), ?_, ?_⟩
  · simp [List.append_assoc]
  · obtain rfl | ⟨r, rfl⟩ := hright
    · exact .inl rfl
    · exact .inr ⟨r.reverse, by simp⟩
  · obtain rfl | ⟨l, rfl⟩ := hleft
    · exact .inl rfl
    · exact .inr ⟨l.reverse, by simp⟩

/-- Space before the text does not matter to its parts. -/
theorem HasPart.dropSpace {text part : List Char} (h : HasPart text part) (hne : part ≠ [])
    (hpart : ∀ c ∈ part, isSpace c = false) : HasPart (text.dropWhile isSpace) part := by
  obtain ⟨left, before, after, right, rfl, hbefore, hafter, hleft, hright⟩ := h
  obtain rfl | ⟨l, rfl⟩ := hleft
  · refine ⟨[], [], after, right, ?_, fun c hc => absurd hc List.not_mem_nil, hafter, .inl rfl,
      hright⟩
    have hhead : ∀ c ∈ (part ++ (after ++ right)).head?, isSpace c = false := by
      intro c hc
      cases part with
      | nil => exact absurd rfl hne
      | cons d ds =>
        obtain rfl := Option.some.inj hc
        exact hpart d List.mem_cons_self
    have hdrop := dropWhile_space hbefore hhead
    simpa [List.append_assoc] using hdrop
  · -- the comma stops the space
    have hcomma : isSpace ',' = false := by decide
    have hdrop : ∀ tail : List Char, (l ++ ',' :: tail).dropWhile isSpace
        = l.dropWhile isSpace ++ ',' :: tail := by
      intro tail
      induction l with
      | nil => exact List.dropWhile_cons_of_neg (by simp [hcomma])
      | cons c cs ih =>
        rw [List.cons_append]
        by_cases hc : isSpace c = true
        · rw [List.dropWhile_cons_of_pos hc, List.dropWhile_cons_of_pos hc, ih]
        · rw [List.dropWhile_cons_of_neg hc, List.dropWhile_cons_of_neg hc, List.cons_append]
    refine ⟨l.dropWhile isSpace ++ [','], before, after, right, ?_, hbefore, hafter,
      .inr ⟨_, rfl⟩, hright⟩
    have htext := hdrop (before ++ (part ++ (after ++ right)))
    simpa [List.append_assoc] using htext

theorem HasPart.trim {text part : List Char} (h : HasPart text part) (hne : part ≠ [])
    (hpart : ∀ c ∈ part, isSpace c = false) : HasPart (trim text) part := by
  have hstart := (h.dropSpace hne hpart).reverse
  have hend := (hstart.dropSpace (by simpa using hne) fun c hc =>
    hpart c (List.mem_reverse.mp hc)).reverse
  rwa [List.reverse_reverse] at hend

/-- Space around a value belongs to its first and last parts. -/
theorem HasPart.pad {text part before after : List Char} (h : HasPart text part)
    (hbefore : ∀ c ∈ before, isSpace c = true) (hafter : ∀ c ∈ after, isSpace c = true) :
    HasPart (before ++ text ++ after) part := by
  obtain ⟨left, inner, outer, right, rfl, hinner, houter, hleft, hright⟩ := h
  have hpadLeft : ∃ left' inner', before ++ left ++ inner = left' ++ inner' ∧
      (∀ c ∈ inner', isSpace c = true) ∧ (left' = [] ∨ ∃ l, left' = l ++ [',']) := by
    obtain rfl | ⟨l, rfl⟩ := hleft
    · refine ⟨[], before ++ inner, by simp, fun c hc => ?_, .inl rfl⟩
      exact (List.mem_append.mp hc).elim (hbefore c) (hinner c)
    · exact ⟨before ++ (l ++ [',']), inner, by simp, hinner, .inr ⟨before ++ l, by simp⟩⟩
  have hpadRight : ∃ outer' right', outer ++ right ++ after = outer' ++ right' ∧
      (∀ c ∈ outer', isSpace c = true) ∧ (right' = [] ∨ ∃ r, right' = ',' :: r) := by
    obtain rfl | ⟨r, rfl⟩ := hright
    · refine ⟨outer ++ after, [], by simp, fun c hc => ?_, .inl rfl⟩
      exact (List.mem_append.mp hc).elim (houter c) (hafter c)
    · exact ⟨outer, ',' :: (r ++ after), by simp, houter, .inr ⟨_, rfl⟩⟩
  obtain ⟨left', inner', hl, hinner', hleft'⟩ := hpadLeft
  obtain ⟨outer', right', hr, houter', hright'⟩ := hpadRight
  refine ⟨left', inner', outer', right', ?_, hinner', houter', hleft', hright'⟩
  calc before ++ (left ++ inner ++ part ++ outer ++ right) ++ after
      = (before ++ left ++ inner) ++ part ++ (outer ++ right ++ after) := by
        simp [List.append_assoc]
    _ = left' ++ inner' ++ part ++ outer' ++ right' := by
        rw [hl, hr]
        simp [List.append_assoc]

theorem lowerChar_space {c : Char} (h : isSpace c = true) : ∀ d ∈ lowerChar c, isSpace d = true := by
  have hnot : ¬ (65 ≤ c.toNat ∧ c.toNat ≤ 90) ∧ c.toNat ≠ 0x212A ∧ c.toNat ≠ 0x130 := by
    simp only [isSpace, Bool.or_eq_true, Bool.and_eq_true, decide_eq_true_eq] at h
    omega
  intro d hd
  rw [lowerChar, if_neg hnot.2.1, if_neg hnot.2.2] at hd
  have hlow : c.toLower = c := by
    unfold Char.toLower
    split
    · next hupper => exact absurd hupper hnot.1
    · rfl
  rw [List.mem_singleton.mp hd, hlow]
  exact h

theorem HasPart.lower {text part : List Char} (h : HasPart text part) :
    HasPart (lower text) (AgentHost.lower part) := by
  obtain ⟨left, before, after, right, rfl, hbefore, hafter, hleft, hright⟩ := h
  have hspaces : ∀ spaces : List Char, (∀ c ∈ spaces, isSpace c = true) →
      ∀ d ∈ AgentHost.lower spaces, isSpace d = true := by
    intro spaces hs d hd
    obtain ⟨c, hc, hdc⟩ := List.mem_flatMap.mp hd
    exact lowerChar_space (hs c hc) d hdc
  have hcomma : lowerChar ',' = [','] := by decide
  refine ⟨AgentHost.lower left, AgentHost.lower before, AgentHost.lower after,
    AgentHost.lower right, ?_, hspaces before hbefore, hspaces after hafter, ?_, ?_⟩
  · simp [AgentHost.lower, List.flatMap_append, List.append_assoc]
  · obtain rfl | ⟨l, rfl⟩ := hleft
    · exact .inl rfl
    · exact .inr ⟨AgentHost.lower l, by simp [AgentHost.lower, hcomma]⟩
  · obtain rfl | ⟨r, rfl⟩ := hright
    · exact .inl rfl
    · exact .inr ⟨AgentHost.lower r, by simp [AgentHost.lower, hcomma]⟩

theorem splitCommas_ne_nil (text : List Char) : splitCommas text ≠ [] := by
  cases text with
  | nil => exact List.cons_ne_nil _ _
  | cons c cs =>
    rw [splitCommas]
    split
    · exact List.cons_ne_nil _ _
    · split <;> exact List.cons_ne_nil _ _

theorem splitCommas_append (left right : List Char) :
    splitCommas (left ++ ',' :: right) = splitCommas left ++ splitCommas right := by
  induction left with
  | nil => rfl
  | cons c cs ih =>
    rw [List.cons_append, splitCommas, splitCommas, ih]
    split
    · rfl
    · cases hparts : splitCommas cs with
      | nil => exact absurd hparts (splitCommas_ne_nil cs)
      | cons part parts => rfl

theorem splitCommas_single {text : List Char} (h : ',' ∉ text) : splitCommas text = [text] := by
  induction text with
  | nil => rfl
  | cons c cs ih =>
    obtain ⟨hc, hcs⟩ := not_or.mp (mt List.mem_cons.mpr h)
    rw [splitCommas, if_neg (Ne.symm hc), ih hcs]

/-- A part without commas and space is one of the parts the text is split into. -/
theorem mem_splitOptions {text part : List Char} (h : HasPart text part) (hcomma : ',' ∉ part)
    (hpart : ∀ c ∈ part, isSpace c = false) : part ∈ splitOptions text := by
  obtain ⟨left, before, after, right, rfl, hbefore, hafter, hleft, hright⟩ := h
  have hnoComma : ∀ spaces : List Char, (∀ c ∈ spaces, isSpace c = true) → ',' ∉ spaces := by
    intro spaces hs hmem
    have hspace := hs ',' hmem
    exact absurd hspace (by decide)
  have hmiddle : splitCommas (before ++ part ++ after) = [before ++ part ++ after] := by
    refine splitCommas_single ?_
    simp only [List.mem_append, not_or]
    exact ⟨⟨hnoComma before hbefore, hcomma⟩, hnoComma after hafter⟩
  have hright : ∃ parts, splitCommas (before ++ part ++ after ++ right)
      = (before ++ part ++ after) :: parts := by
    obtain rfl | ⟨r, rfl⟩ := hright
    · exact ⟨[], by rw [List.append_nil, hmiddle]⟩
    · exact ⟨splitCommas r, by rw [splitCommas_append, hmiddle]; rfl⟩
  obtain ⟨parts, hparts⟩ := hright
  have hmem : before ++ part ++ after ∈
      splitCommas (left ++ before ++ part ++ after ++ right) := by
    obtain rfl | ⟨l, rfl⟩ := hleft
    · simp only [List.nil_append, hparts]
      exact List.mem_cons_self
    · have htext : l ++ [','] ++ before ++ part ++ after ++ right
          = l ++ ',' :: (before ++ part ++ after ++ right) := by simp [List.append_assoc]
      rw [htext, splitCommas_append, hparts]
      exact List.mem_append_right _ List.mem_cons_self
  have htrim := trim_spaces hbefore hpart hafter
  exact List.mem_map.mpr ⟨_, hmem, htrim⟩

/-- A text that has no space but for its capitals has none. -/
theorem noSpace_of_caseless {text small : List Char} (hsmall : ∀ c ∈ small, c.toNat ≤ 0x7E)
    (hspace : ∀ c ∈ small, isSpace c = false) (h : caseless text = small) :
    ∀ c ∈ text, isSpace c = false := by
  intro c hc
  have hlow : c.toLower ∈ small := h ▸ List.mem_map_of_mem hc
  have hle := ascii_of_caseless hsmall h c hc
  have hmem : c.toLower ∈ lowerChar c := by
    rw [lowerChar, if_neg (by omega), if_neg (by omega)]
    exact List.mem_cons_self
  by_contra hc
  have hlower := lowerChar_space (Bool.eq_true_of_not_eq_false hc) c.toLower hmem
  rw [hspace _ hlow] at hlower
  exact Bool.false_ne_true hlower

/-! ### The response -/

namespace WebSocketWire

variable {w : WebSocketWire} {response : Response} {headers : List Header}

/-- The checks of `#consumeHandshake` let an accepting response pass, where its connection is on one
    line. -/
theorem checkResponse_accepts (h : response.Accepts w.accept headers)
    (hsingle : (headersNamed headers "connection").length = 1) (hdigest : IsBase64 w.accept) :
    w.checkResponse (Utf8.decodeLossy (joinLines response.status response.lines)) = .ok () := by
  have hsplit := splitLines_response response.status
    fun line hline => (h.ends line hline).1
  obtain ⟨reason, hstatus, hreason⟩ := h.status
  have hswitching : isSwitchingProtocols (Utf8.decodeLossy response.status) = true := by
    rw [hstatus]
    obtain rfl | ⟨phrase, rfl⟩ := hreason
    · decide
    · rfl
  have hdigestSpace : ∀ c ∈ w.accept, isSpace c = false := by
    intro c hc
    have hrange : 0x21 ≤ c.toNat ∧ c.toNat ≤ 0x7E := by
      obtain halnum | rfl | rfl | rfl := hdigest c hc
      · simp only [Char.isAlphanum, Char.isAlpha, Char.isUpper, Char.isLower, Char.isDigit,
          Bool.or_eq_true, Bool.and_eq_true, decide_eq_true_eq, ge_iff_le,
          UInt32.le_iff_toNat_le] at halnum
        have hval : c.val.toNat = c.toNat := rfl
        have hletters : 'A'.val.toNat = 65 ∧ 'Z'.val.toNat = 90 ∧ 'a'.val.toNat = 97 ∧
            'z'.val.toNat = 122 ∧ '0'.val.toNat = 48 ∧ '9'.val.toNat = 57 := by decide
        omega
      all_goals decide
    simp only [isSpace, Bool.or_eq_false_iff, Bool.and_eq_false_iff, decide_eq_false_iff_not]
    omega
  obtain ⟨acceptHeader, hacceptNamed, hacceptValue⟩ := h.accept
  obtain ⟨upgradeHeader, hupgradeNamed, hupgradeValue⟩ := h.upgrade
  obtain ⟨connectionHeader, hconnectionMem, option, hoption, hoptionText⟩ := h.connection
  obtain ⟨onlyHeader, honly⟩ := List.length_eq_one_iff.mp hsingle
  obtain rfl : connectionHeader = onlyHeader := List.mem_singleton.mp (honly ▸ hconnectionMem)
  have hspaces : ∀ header ∈ headers, (∀ c ∈ header.before, isSpace c = true) ∧
      ∀ c ∈ header.after, isSpace c = true := fun header hmem =>
    ⟨isSpace_of_optional (h.spaces header hmem).1, isSpace_of_optional (h.spaces header hmem).2⟩
  -- the digest
  have hgetAccept : headerGet (readHeaders headers) "sec-websocket-accept" = some w.accept := by
    obtain ⟨hbefore, hafter⟩ := hspaces acceptHeader (mem_of_named hacceptNamed)
    rw [headerGet_of_named hacceptNamed, hacceptValue,
      trim_spaces hbefore hdigestSpace hafter]
  have hgetExtensions : headerGet (readHeaders headers) "sec-websocket-extensions" = none :=
    headerGet_none h.extensions
  -- the protocol that is switched to
  have hgetUpgrade : (headerGet (readHeaders headers) "upgrade").map lower
      = some "websocket".toList := by
    obtain ⟨hbefore, hafter⟩ := hspaces upgradeHeader (mem_of_named hupgradeNamed)
    have hsmall : ∀ c ∈ "websocket".toList, c.toNat ≤ 0x7E :=
      List.all_iff_forall_prop.mp (by decide)
    have hsolid : ∀ c ∈ "websocket".toList, isSpace c = false :=
      List.all_iff_forall_prop.mp (by decide)
    have hascii := ascii_of_caseless hsmall hupgradeValue
    have hvalueSpace := noSpace_of_caseless hsmall hsolid hupgradeValue
    rw [headerGet_of_named hupgradeNamed, trim_spaces hbefore hvalueSpace hafter,
      Option.map_some, lower_of_ascii hascii, hupgradeValue]
  -- the option of the connection
  have hgetConnection : (headerGet (readHeaders headers) "connection").any fun value =>
      (splitOptions (lower value)).contains "upgrade".toList := by
    obtain ⟨hbefore, hafter⟩ := hspaces connectionHeader (mem_of_named honly)
    obtain ⟨left, before, after, right, hvalue, hb, ha, hleft, hright⟩ := hoption
    have hpart : HasPart connectionHeader.value option :=
      ⟨left, before, after, right, hvalue, isSpace_of_optional hb, isSpace_of_optional ha, hleft,
        hright⟩
    have hsmall : ∀ c ∈ "upgrade".toList, c.toNat ≤ 0x7E :=
      List.all_iff_forall_prop.mp (by decide)
    have hsolid : ∀ c ∈ "upgrade".toList, isSpace c = false :=
      List.all_iff_forall_prop.mp (by decide)
    have hascii := ascii_of_caseless hsmall hoptionText
    have hoptionLower : lower option = "upgrade".toList :=
      (lower_of_ascii hascii).trans hoptionText
    have hoptionSpace := noSpace_of_caseless hsmall hsolid hoptionText
    have hne : option ≠ [] := by
      rintro rfl
      exact absurd hoptionText (by decide)
    have hlowered := ((hpart.pad hbefore hafter).trim hne hoptionSpace).lower
    rw [hoptionLower] at hlowered
    rw [headerGet_of_named honly]
    have hmem := mem_splitOptions hlowered (by decide) hsolid
    exact List.contains_iff_mem.mpr hmem
  unfold checkResponse
  rw [hsplit, List.map_cons, h.texts]
  dsimp only
  rw [if_neg (not_not.mpr hswitching), headersOf_texts h.names]
  dsimp only
  rw [if_neg (not_not.mpr hgetAccept), hgetExtensions, if_neg (by simp), hgetUpgrade,
    if_neg (not_not.mpr rfl), if_neg (not_not.mpr hgetConnection)]

/-- **Response.** An accepting response within the limit opens the wire. -/
theorem reaches_response (h : response.Accepts w.accept headers)
    (hsingle : (headersNamed headers "connection").length = 1) (hdigest : IsBase64 w.accept)
    (hlimit : response.bytes.length ≤ maxHandshakeBytes) (hstate : w.state = .handshake)
    (hfragments : w.fragments = [] ∧ w.fragmentBytes = 0) :
    { w with buffer := [] }.Reaches response.bytes (w.stage [] [.opened]) := by
  have hne : ∀ line ∈ response.lines, 13 ∉ line ∧ line ≠ [] := by
    intro line hline
    refine ⟨(h.ends line (List.mem_cons_of_mem _ hline)).1, ?_⟩
    rintro rfl
    -- the line of a header is not empty: it has a colon
    have hmem : Utf8.decodeLossy [] ∈ headers.map Header.text :=
      h.texts ▸ List.mem_map_of_mem hline
    obtain ⟨header, _, heq⟩ := List.mem_map.mp hmem
    have hlength := congrArg List.length heq
    simp [Header.text, Utf8.decodeLossy, Utf8.decode, Utf8.decodeFrom] at hlength
  intro more
  refine StreamParser.drain_of_some ?_
  have hitem := parseItem_handshake (w := { w with buffer := [] }) hstate (response.bytes ++ more)
  have hconsume : { w with buffer := response.bytes ++ more }.consumeHandshake
      = .ok (some ({ w with state := .opened, buffer := more }.emit .opened)) := by
    unfold consumeHandshake
    dsimp only
    have hindex := boundaryIndex_response (h.ends _ List.mem_cons_self).1 hne more
    rw [response_bytes] at hlimit ⊢
    rw [hindex]
    dsimp only
    have hsum : (joinLines response.status response.lines).length + 4 ≤ maxHandshakeBytes := by
      rwa [List.length_append] at hlimit
    rw [if_neg (Nat.not_lt.mpr hsum), List.append_assoc, List.take_left]
    have hcheck : { w with buffer := joinLines response.status response.lines ++
        (handshakeBoundary ++ more) }.checkResponse = w.checkResponse := rfl
    rw [hcheck, checkResponse_accepts h hsingle hdigest, ← List.drop_drop, List.drop_left]
    rfl
  dsimp only at hitem
  rw [hconsume] at hitem
  refine hitem.trans ?_
  simp [stage, emit, hfragments]

end WebSocketWire

end AgentHost
