import VendorScreen.Proofs.Json.Literals

namespace VendorScreen.Json

/-!
# Reading back what is written

The text of a value is cut into the same tokens wherever it stands, as long as no word goes on
behind it, and these tokens build the value on whatever lies on the stack. Gaps between them make no
difference. So a value whose strings all have text is read back from what is written, in either
layout.
-/

/-- All strings in the value have text, keys among them. -/
inductive HasText : Json → Prop
  | null : HasText .null
  | bool (value : Bool) : HasText (.bool value)
  | number (literal : Numeral) : HasText (.number literal)
  | string (s : String) : HasText (.string (some s))
  | array {items : List Json} (hitems : ∀ item ∈ items, HasText item) : HasText (.array items)
  | object {fields : List (Option String × Json)} (hkeys : ∀ field ∈ fields, field.1.isSome = true)
      (hvalues : ∀ field ∈ fields, HasText field.2) : HasText (.object fields)

/-! ## Tokens of a text -/

/-- No word goes on into the text. -/
def EndsWord (rest : List Char) : Prop := ∀ c ∈ rest.head?, isWordChar c = false

/-- The text is cut into the tokens, whatever comes before it and behind it. -/
def Lexes (text : List Char) (tokens : List Token) : Prop :=
  ∀ done rest, EndsWord rest →
    tokensOnto? done (text ++ rest) = tokensOnto? (tokens.reverse ++ done) rest

section lexing

variable {text text' word gap : List Char} {tokens tokens' : List Token} {c : Char} {token : Token}

theorem not_isSpace_of_mark? (h : mark? c = some token) : isSpace c = false := by
  unfold mark? at h
  split at h <;> first | rfl | cases h

theorem not_isWordChar_of_mark? (h : mark? c = some token) : isWordChar c = false := by
  unfold mark? at h
  split at h <;> first | rfl | cases h

theorem of_isWordChar (h : isWordChar c = true) : isSpace c = false ∧ mark? c = none ∧ c ≠ '"' := by
  refine ⟨?_, ?_, ?_⟩
  · rw [Bool.eq_false_iff]
    intro hspace
    simp only [isSpace, Bool.or_eq_true, decide_eq_true_eq] at hspace
    rcases hspace with ((rfl | rfl) | rfl) | rfl <;> revert h <;> decide
  · cases hmark : mark? c with
    | none => rfl
    | some token =>
        rw [not_isWordChar_of_mark? hmark] at h
        cases h
  · rintro rfl
    revert h
    decide

theorem tokensOnto?_mark (h : mark? c = some token) (done : List Token) (rest : List Char) :
    tokensOnto? done (c :: rest) = tokensOnto? (token :: done) rest := by
  rw [tokensOnto?, if_neg (Bool.eq_false_iff.mp (not_isSpace_of_mark? h)), h]

theorem lexes_nil : Lexes [] [] := fun _ _ _ => rfl

theorem lexes_mark (h : mark? c = some token) (htext : Lexes text tokens) :
    Lexes (c :: text) (token :: tokens) := by
  intro done rest hrest
  rw [List.cons_append, tokensOnto?_mark h, htext _ _ hrest]
  simp

/-- All characters are spaces or line breaks. -/
def IsGap (gap : List Char) : Prop := ∀ c ∈ gap, isSpace c = true

theorem isGap_nil : IsGap [] := fun _ h => absurd h List.not_mem_nil

theorem isGap_lineBreak (level : ℕ) : IsGap (lineBreak level) := by
  intro c hc
  rcases List.mem_cons.mp hc with rfl | hc
  · rfl
  · rw [List.eq_of_mem_replicate hc]
    rfl

theorem not_isWordChar_of_isSpace (h : isSpace c = true) : isWordChar c = false := by
  rw [Bool.eq_false_iff]
  intro hword
  rw [(of_isWordChar hword).1] at h
  cases h

theorem IsGap.endsWord (hgap : IsGap gap) (h : EndsWord text) : EndsWord (gap ++ text) := by
  cases gap with
  | nil => exact h
  | cons c gap =>
      intro d hd
      obtain rfl : c = d := Option.some.inj hd
      exact not_isWordChar_of_isSpace (hgap c List.mem_cons_self)

theorem IsGap.tokensOnto?_append (hgap : IsGap gap) (done : List Token) (rest : List Char) :
    tokensOnto? done (gap ++ rest) = tokensOnto? done rest := by
  induction gap with
  | nil => rfl
  | cons c gap ih =>
      rw [List.cons_append, tokensOnto?, if_pos (hgap c List.mem_cons_self)]
      exact ih fun d hd => hgap d (List.mem_cons_of_mem c hd)

theorem IsGap.lexes_append (hgap : IsGap gap) (htext : Lexes text tokens) :
    Lexes (gap ++ text) tokens := by
  intro done rest hrest
  rw [List.append_assoc, hgap.tokensOnto?_append, htext _ _ hrest]

/-- A mark ends the word before it, in front of a gap or at once. -/
theorem lexes_append_mark (htext : Lexes text tokens) (hgap : IsGap gap) (h : mark? c = some token)
    (htext' : Lexes text' tokens') :
    Lexes (text ++ (gap ++ c :: text')) (tokens ++ token :: tokens') := by
  intro done rest hrest
  have hmark : EndsWord (c :: text' ++ rest) := by
    intro d hd
    obtain rfl : c = d := Option.some.inj hd
    exact not_isWordChar_of_mark? h
  have hends : EndsWord (gap ++ (c :: text' ++ rest)) := hgap.endsWord hmark
  rw [List.append_assoc, List.append_assoc, htext _ _ hends, hgap.tokensOnto?_append,
    List.cons_append, tokensOnto?_mark h, htext' _ _ hrest]
  simp

theorem lexes_writeString (s : String) : Lexes (writeString s) [.string (some s)] := by
  intro done rest _
  have hread := readString_toList s rest
  have hmark : mark? '"' = none := rfl
  rw [writeString, List.cons_append, List.cons_append, List.append_assoc, List.singleton_append,
    tokensOnto?, if_neg (by decide), hmark]
  simp only [if_true]
  split <;> simp_all

theorem lexes_word {value : Json} (hne : word ≠ []) (hword : ∀ c ∈ word, isWordChar c = true)
    (h : readScalar? word = some value) : Lexes word [.scalar value] := by
  intro done rest hrest
  obtain ⟨c, cs, rfl⟩ := List.exists_cons_of_ne_nil hne
  have hc := hword c List.mem_cons_self
  obtain ⟨hspace, hmark, hquote⟩ := of_isWordChar hc
  obtain ⟨htake, hdrop⟩ :=
    takeWhile_append (fun d hd => hword d (List.mem_cons_of_mem _ hd)) hrest
  rw [List.cons_append, tokensOnto?, if_neg (Bool.eq_false_iff.mp hspace), hmark]
  simp only [if_neg hquote, hc, if_true, htake, h, hdrop]
  rfl

end lexing

/-! ## Values from tokens -/

/-- The state after some tokens. -/
def run? (tokens : List Token) (state : State) : Option State :=
  tokens.foldlM (fun state token => State.step? token state) state

/-- The tokens build the value, whatever containers are under way. -/
def Builds (tokens : List Token) (value : Json) : Prop :=
  ∀ stack, run? tokens (.value stack) = some (.place value stack)

section building

variable {tokens : List Token} {state state' : State} {value : Json} {stack : List Frame}

theorem run?_cons (token : Token) (tokens : List Token) (state : State) :
    run? (token :: tokens) state = (State.step? token state).bind (run? tokens) := rfl

theorem run?_append (tokens tokens' : List Token) (state : State) :
    run? (tokens ++ tokens') state = (run? tokens state).bind (run? tokens') := by
  simp only [run?, List.foldlM_append]
  rfl

theorem builds_string (text : Option String) : Builds [.string text] (.string text) := fun _ => rfl

theorem builds_scalar (value : Json) : Builds [.scalar value] value := fun _ => rfl

/-- Where each first step can be taken just as well, so can the whole way. -/
theorem run?_of_step (hstep : ∀ token next, State.step? token state = some next →
      State.step? token state' = some next)
    (hne : tokens ≠ []) {final : State} (h : run? tokens state = some final) :
    run? tokens state' = some final := by
  obtain ⟨token, rest, rfl⟩ := List.exists_cons_of_ne_nil hne
  rw [run?_cons] at h ⊢
  obtain ⟨next, hnext, hrest⟩ := Option.bind_eq_some_iff.mp h
  rw [hstep token next hnext]
  exact hrest

/-- What begins a value begins the first item of an array. -/
theorem run?_itemOrClose (hne : tokens ≠ [])
    (h : run? tokens (.value (.inArray [] :: stack)) = some state) :
    run? tokens (.itemOrClose stack) = some state := by
  apply run?_of_step _ hne h
  intro token next hnext
  cases token with
  | closeArray => cases hnext
  | _ => exact hnext

/-- What begins a field begins the first field of an object. -/
theorem run?_keyOrClose (hne : tokens ≠ []) (h : run? tokens (.key stack []) = some state) :
    run? tokens (.keyOrClose stack) = some state := by
  apply run?_of_step _ hne h
  intro token next hnext
  cases token with
  | closeObject => cases hnext
  | _ => exact hnext

theorem Builds.ne_nil (h : Builds tokens value) : tokens ≠ [] := by
  rintro rfl
  cases h []

/-- The tokens build the items of an array behind those that it holds already. -/
def BuildsItems (tokens : List Token) (items : List Json) : Prop :=
  ∀ done stack, ∃ last before, (last :: before).reverse = done.reverse ++ items ∧
    run? tokens (.value (.inArray done :: stack)) = some (.after last (.inArray before) stack)

/-- The tokens build the fields of an object behind those that it holds already. -/
def BuildsFields (tokens : List Token) (fields : List (Option String × Json)) : Prop :=
  ∀ done stack, ∃ key last before, ((key, last) :: before).reverse = done.reverse ++ fields ∧
    run? tokens (.key stack done) = some (.after last (.inObject before key) stack)

end building

/-! ## Values written and read -/

/-- The text is cut into tokens that build the value. -/
def IsReadFrom (text : List Char) (value : Json) : Prop :=
  ∃ tokens, Lexes text tokens ∧ Builds tokens value

theorem isReadFrom_word {value : Json} (hne : value.compact ≠ [])
    (hword : value.compact.all isWordChar = true)
    (h : readScalar? value.compact = some value) : IsReadFrom value.compact value :=
  ⟨_, lexes_word hne (List.all_eq_true.mp hword) h, builds_scalar value⟩

theorem isReadFrom_number (literal : Numeral) :
    IsReadFrom (compact (.number literal)) (.number literal) := by
  apply isReadFrom_word
  · rw [compact, writeNumeral_eq]
    have hne := (isWhole_take literal).ne_nil
    simp [hne]
  · rw [List.all_eq_true]
    intro c hc
    rcases mem_writeNumeral hc with hdigit | hmark
    · simp [isWordChar, hdigit]
    · fin_cases hmark <;> decide
  · exact readScalar?_writeNumeral literal

/-- Texts one after the other, each behind a gap. -/
def listed (gap : List Char) : List (List Char) → List Char
  | [] => []
  | [text] => gap ++ text
  | text :: rest => gap ++ text ++ ',' :: listed gap rest

/-- A field, with a gap between the colon and the value. -/
def fieldText (gap : List Char) (write : Json → List Char) (field : Option String × Json) :
    List Char :=
  writeText field.1 ++ ':' :: (gap ++ write field.2)

section layouts

variable {gap gap' : List Char} {write : Json → List Char} {items : List Json}
  {fields : List (Option String × Json)}

theorem exists_tokens_items (hgap : IsGap gap) (hne : items ≠ [])
    (h : ∀ item ∈ items, IsReadFrom (write item) item) :
    ∃ tokens, tokens ≠ [] ∧ Lexes (listed gap (items.map write)) tokens ∧
      BuildsItems tokens items := by
  induction items with
  | nil => exact absurd rfl hne
  | cons item items ih =>
      obtain ⟨tokens, hlexes, hbuilds⟩ := h item List.mem_cons_self
      have hitem := hgap.lexes_append hlexes
      cases items with
      | nil =>
          refine ⟨tokens, hbuilds.ne_nil, hitem, ?_⟩
          intro done stack
          exact ⟨item, done, by simp, hbuilds (.inArray done :: stack)⟩
      | cons next items =>
          -- The comma ends the item before it and asks for another one.
          obtain ⟨tokens', -, hlexes', hbuilds'⟩ :=
            ih (List.cons_ne_nil _ _) fun other hother => h other (List.mem_cons_of_mem _ hother)
          refine ⟨tokens ++ .comma :: tokens', ?_,
            lexes_append_mark hitem isGap_nil rfl hlexes', ?_⟩
          · exact List.append_ne_nil_of_left_ne_nil hbuilds.ne_nil _
          · intro done stack
            obtain ⟨last, before, hitems, hrun⟩ := hbuilds' (item :: done) stack
            refine ⟨last, before, by simpa using hitems, ?_⟩
            rw [run?_append, hbuilds]
            exact hrun

theorem exists_tokens_fields (hgap : IsGap gap) (hgap' : IsGap gap') (hne : fields ≠ [])
    (hkeys : ∀ field ∈ fields, field.1.isSome = true)
    (hvalues : ∀ field ∈ fields, IsReadFrom (write field.2) field.2) :
    ∃ tokens, tokens ≠ [] ∧ Lexes (listed gap (fields.map (fieldText gap' write))) tokens ∧
      BuildsFields tokens fields := by
  induction fields with
  | nil => exact absurd rfl hne
  | cons field fields ih =>
      obtain ⟨key, value⟩ := field
      obtain ⟨name, rfl⟩ := Option.isSome_iff_exists.mp (hkeys _ List.mem_cons_self)
      obtain ⟨tokens, hlexes, hbuilds⟩ := hvalues _ List.mem_cons_self
      have hfield : Lexes (gap ++ fieldText gap' write (some name, value))
          (.string (some name) :: .colon :: tokens) := by
        apply hgap.lexes_append
        exact lexes_append_mark (lexes_writeString name) isGap_nil rfl (hgap'.lexes_append hlexes)
      cases fields with
      | nil =>
          refine ⟨.string (some name) :: .colon :: tokens, List.cons_ne_nil _ _, hfield, ?_⟩
          intro done stack
          exact ⟨some name, value, done, by simp, hbuilds (.inObject done (some name) :: stack)⟩
      | cons next fields =>
          obtain ⟨tokens', -, hlexes', hbuilds'⟩ := ih (List.cons_ne_nil _ _)
            (fun other hother => hkeys other (List.mem_cons_of_mem _ hother))
            (fun other hother => hvalues other (List.mem_cons_of_mem _ hother))
          refine ⟨.string (some name) :: .colon :: (tokens ++ .comma :: tokens'),
            List.cons_ne_nil _ _, lexes_append_mark hfield isGap_nil rfl hlexes', ?_⟩
          intro done stack
          obtain ⟨last, value', before, hfields, hrun⟩ :=
            hbuilds' ((some name, value) :: done) stack
          refine ⟨last, value', before, by simpa using hfields, ?_⟩
          change run? (tokens ++ .comma :: tokens')
            (.value (.inObject done (some name) :: stack)) = _
          rw [run?_append, hbuilds]
          exact hrun

theorem isReadFrom_items (hgap : IsGap gap) (hgap' : IsGap gap') (hne : items ≠ [])
    (h : ∀ item ∈ items, IsReadFrom (write item) item) :
    IsReadFrom ('[' :: (listed gap (items.map write) ++ (gap' ++ [']']))) (.array items) := by
  obtain ⟨tokens, hsome, hlexes, hbuilds⟩ := exists_tokens_items hgap hne h
  refine ⟨.openArray :: (tokens ++ [.closeArray]),
    lexes_mark rfl (lexes_append_mark hlexes hgap' rfl lexes_nil), ?_⟩
  intro stack
  obtain ⟨last, before, hitems, hrun⟩ := hbuilds [] stack
  change run? (tokens ++ [.closeArray]) (.itemOrClose stack) = _
  rw [run?_append, run?_itemOrClose hsome hrun]
  simp only [List.reverse_nil, List.nil_append] at hitems
  rw [← hitems]
  rfl

theorem isReadFrom_fields {gap'' : List Char} (hgap : IsGap gap) (hgap' : IsGap gap')
    (hgap'' : IsGap gap'') (hne : fields ≠ []) (hkeys : ∀ field ∈ fields, field.1.isSome = true)
    (hvalues : ∀ field ∈ fields, IsReadFrom (write field.2) field.2) :
    IsReadFrom ('\x7b' :: (listed gap (fields.map (fieldText gap' write)) ++ (gap'' ++ ['\x7d'])))
      (.object fields) := by
  obtain ⟨tokens, hsome, hlexes, hbuilds⟩ := exists_tokens_fields hgap hgap' hne hkeys hvalues
  refine ⟨.openObject :: (tokens ++ [.closeObject]),
    lexes_mark rfl (lexes_append_mark hlexes hgap'' rfl lexes_nil), ?_⟩
  intro stack
  obtain ⟨last, value, before, hfields, hrun⟩ := hbuilds [] stack
  change run? (tokens ++ [.closeObject]) (.keyOrClose stack) = _
  rw [run?_append, run?_keyOrClose hsome hrun]
  simp only [List.reverse_nil, List.nil_append] at hfields
  rw [← hfields]
  rfl

theorem isReadFrom_nil : IsReadFrom ['[', ']'] (.array []) :=
  ⟨[.openArray, .closeArray], lexes_mark rfl (lexes_mark rfl lexes_nil), fun _ => rfl⟩

theorem isReadFrom_no_fields : IsReadFrom ['\x7b', '\x7d'] (.object []) :=
  ⟨[.openObject, .closeObject], lexes_mark rfl (lexes_mark rfl lexes_nil), fun _ => rfl⟩

end layouts

/-- Whatever writes a list item by item gives the texts of the items. -/
theorem eq_listed {α : Type} {writeAll : List α → List Char} {gap : List Char}
    {write : α → List Char} (hnil : writeAll [] = []) (hone : ∀ a, writeAll [a] = gap ++ write a)
    (hmore : ∀ a next rest, writeAll (a :: next :: rest) =
      gap ++ write a ++ ',' :: writeAll (next :: rest)) (items : List α) :
    writeAll items = listed gap (items.map write) := by
  induction items with
  | nil => exact hnil
  | cons a items ih =>
      cases items with
      | nil => exact hone a
      | cons next rest =>
          rw [hmore, ih]
          rfl

theorem compactItems_eq (items : List Json) :
    compactItems items = listed [] (items.map compact) := by
  apply eq_listed rfl
  · exact fun _ => rfl
  · exact fun _ _ _ => rfl

theorem compactFields_eq (fields : List (Option String × Json)) :
    compactFields fields = listed [] (fields.map (fieldText [] compact)) := by
  apply eq_listed rfl
  · exact fun _ => rfl
  · intro field next rest
    simp [compactFields, fieldText]

theorem indentedItems_eq (level : ℕ) (items : List Json) :
    indentedItems level items = listed (lineBreak level) (items.map (indented level)) := by
  apply eq_listed rfl
  · exact fun _ => rfl
  · exact fun _ _ _ => rfl

theorem indentedFields_eq (level : ℕ) (fields : List (Option String × Json)) :
    indentedFields level fields =
      listed (lineBreak level) (fields.map (fieldText [' '] (indented level))) := by
  apply eq_listed rfl
  · intro field
    simp [indentedFields, fieldText]
  · intro field next rest
    simp [indentedFields, fieldText]

theorem HasText.isReadFrom_compact {value : Json} (h : HasText value) :
    IsReadFrom value.compact value := by
  induction h with
  | null => exact isReadFrom_word (by decide) (by decide) (by simp [compact, readScalar?])
  | bool value =>
      cases value <;>
        exact isReadFrom_word (by decide) (by decide) (by simp [compact, readScalar?])
  | number literal => exact isReadFrom_number literal
  | string s => exact ⟨_, lexes_writeString s, builds_string _⟩
  | @array items _ ih =>
      rcases eq_or_ne items [] with rfl | hne
      · exact isReadFrom_nil
      · rw [compact, compactItems_eq]
        exact isReadFrom_items isGap_nil isGap_nil hne ih
  | @object fields hkeys _ ih =>
      rcases eq_or_ne fields [] with rfl | hne
      · exact isReadFrom_no_fields
      · rw [compact, compactFields_eq]
        exact isReadFrom_fields isGap_nil isGap_nil isGap_nil hne hkeys ih

theorem HasText.isReadFrom_indented {value : Json} (h : HasText value) (level : ℕ) :
    IsReadFrom (value.indented level) value := by
  induction h generalizing level with
  | null => exact HasText.null.isReadFrom_compact
  | bool value => exact (HasText.bool value).isReadFrom_compact
  | number literal => exact isReadFrom_number literal
  | string s => exact (HasText.string s).isReadFrom_compact
  | @array items _ ih =>
      rcases eq_or_ne items [] with rfl | hne
      · exact isReadFrom_nil
      · obtain ⟨item, rest, rfl⟩ := List.exists_cons_of_ne_nil hne
        rw [indented, indentedItems_eq, List.append_assoc]
        apply isReadFrom_items (isGap_lineBreak _) (isGap_lineBreak _) hne
        exact fun item hitem => ih item hitem (level + 1)
  | @object fields hkeys _ ih =>
      have hspace : IsGap [' '] := by simp [IsGap, isSpace]
      rcases eq_or_ne fields [] with rfl | hne
      · exact isReadFrom_no_fields
      · obtain ⟨field, rest, rfl⟩ := List.exists_cons_of_ne_nil hne
        rw [indented, indentedFields_eq, List.append_assoc]
        apply isReadFrom_fields (isGap_lineBreak _) hspace (isGap_lineBreak _) hne hkeys
        exact fun field hfield => ih field hfield (level + 1)

/-- Behind the text of a value there may be a gap. -/
theorem IsReadFrom.read? {text gap : List Char} {value : Json} (h : IsReadFrom text value)
    (hgap : IsGap gap) : read? (String.ofList (text ++ gap)) = some value := by
  obtain ⟨tokens, hlexes, hbuilds⟩ := h
  have htokens : tokensOnto? [] (text ++ gap) = some tokens := by
    have hends : EndsWord (gap ++ []) := hgap.endsWord (by simp [EndsWord])
    have hpassed := hgap.tokensOnto?_append tokens.reverse []
    rw [List.append_nil] at hends hpassed
    rw [hlexes [] gap hends, List.append_nil, hpassed, tokensOnto?, List.reverse_reverse]
  have hvalue : ofTokens? tokens = some value := by
    have hrun : tokens.foldlM (fun state token => State.step? token state) (.value []) =
        some (.complete value) := hbuilds []
    rw [ofTokens?, hrun]
  rw [Json.read?, String.toList_ofList, htokens]
  exact hvalue

/-- A value whose strings all have text is read back from its text. -/
theorem read?_write {value : Json} (h : HasText value) : read? value.write = some value := by
  have hread := h.isReadFrom_compact.read? isGap_nil
  rwa [List.append_nil] at hread

/-- Different values have different texts. -/
theorem write_injective {value value' : Json} (h : HasText value) (h' : HasText value')
    (htext : value.write = value'.write) : value = value' := by
  rw [← Option.some_inj, ← read?_write h, htext, read?_write h']

/-- A value is read back from a line that holds its text. -/
theorem read?_write_line {value : Json} (h : HasText value) :
    read? (value.write ++ "\n") = some value := by
  have hread := h.isReadFrom_compact.read? (isGap_lineBreak 0)
  rwa [String.ofList_append] at hread

theorem read?_writeIndented_line {value : Json} (h : HasText value) :
    read? (value.writeIndented ++ "\n") = some value := by
  have hread := (h.isReadFrom_indented 0).read? (isGap_lineBreak 0)
  rwa [String.ofList_append] at hread

end VendorScreen.Json
