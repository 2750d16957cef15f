import FirmwareSymbols.Json.Parse
import FirmwareSymbols.Proofs.WrittenTokens

/-!
# Written values are read back

A value is written as the texts of its tokens with blanks between them.
Reading takes the same way back in two steps: the text is cut into tokens,
and the tokens are put together again. Neither step looks at the blanks,
so both layouts are read alike.

A value can hold a number whose literal is none, and no text says such a
value. Every other value is read back as it is, at any depth and with any
characters in its strings.

## Main definitions

* `Json.tokens`: the tokens of a value.
* `Json.WellFormed`: a value whose numbers are literals of numbers.

## Main results

* `Json.scan?_write`: the text of a value is cut into its tokens.
* `Json.ofTokens?_tokens`: the tokens of a value make that value.
* `Json.parse?_compactText`, `Json.parse?_prettyText`: a written value is
  read back.
-/

namespace FirmwareSymbols

namespace Json

/-! ## Values as tokens -/

mutual

/-- The tokens of a value. -/
def tokens : Json → List Token
  | null => [.null]
  | bool value => [.bool value]
  | number literal => [.number literal]
  | string text => [.string text]
  | list [] => [.openList, .closeList]
  | list (item :: items) => .openList :: (tokens item ++ (itemTokens items ++ [.closeList]))
  | object [] => [.openObject, .closeObject]
  | object (member :: members) =>
    .openObject :: (memberTokens member ++ (memberListTokens members ++ [.closeObject]))

/-- The tokens of the items behind the first one. -/
def itemTokens : List Json → List Token
  | [] => []
  | item :: items => .comma :: (tokens item ++ itemTokens items)

/-- The tokens of a key and its value. -/
def memberTokens : Option String × Json → List Token
  | (key, value) => .string key :: .colon :: tokens value

/-- The tokens of the members behind the first one. -/
def memberListTokens : List (Option String × Json) → List Token
  | [] => []
  | member :: members => .comma :: (memberTokens member ++ memberListTokens members)

end

/-- A value whose numbers are literals of numbers. -/
inductive WellFormed : Json → Prop where
  | null : WellFormed null
  | bool (value : Bool) : WellFormed (bool value)
  | number {literal : List Char} (isNumber : IsNumber literal) : WellFormed (number literal)
  | string (text : Option String) : WellFormed (string text)
  | list {items : List Json} (items_wellFormed : ∀ item ∈ items, WellFormed item) :
    WellFormed (list items)
  | object {members : List (Option String × Json)}
    (values_wellFormed : ∀ member ∈ members, WellFormed member.2) : WellFormed (object members)

/-- A layout of which everything is blank. -/
structure Layout.Blank (layout : Layout) : Prop where
  line : ∀ depth, ∀ c ∈ layout.line depth, isBlank c = true
  gap : ∀ c ∈ layout.gap, isBlank c = true

theorem Layout.blank_compact : Layout.compact.Blank :=
  ⟨fun _ _ hc => absurd hc List.not_mem_nil, fun _ hc => absurd hc List.not_mem_nil⟩

theorem Layout.blank_pretty : Layout.pretty.Blank := by
  refine ⟨fun depth c hc => ?_, fun c hc => ?_⟩
  · rcases List.mem_cons.1 hc with rfl | hc
    · rfl
    · rw [List.eq_of_mem_replicate hc]
      rfl
  · rw [List.mem_singleton.1 hc]
    rfl

/-! ## From texts to tokens -/

/-- A blank does not continue a number. -/
theorem EndsNumber.append {blanks text : List Char} (hblanks : ∀ c ∈ blanks, isBlank c = true)
    (h : EndsNumber text) : EndsNumber (blanks ++ text) := by
  cases blanks with
  | nil => exact h
  | cons c blanks =>
      have hc := hblanks c List.mem_cons_self
      simp only [isBlank, Bool.or_eq_true, beq_iff_eq] at hc
      rcases hc with ((rfl | rfl) | rfl) | rfl <;> exact EndsNumber.cons (by decide)

/-- What stands behind the first item of a list does not continue a number. -/
theorem endsNumber_writeItems (layout : Layout) (depth : Nat) (items : List Json) {rest : List Char}
    (hrest : EndsNumber rest) : EndsNumber (writeItems layout depth items ++ rest) := by
  cases items with
  | nil => exact hrest
  | cons item items => exact .cons (by decide)

/-- What stands behind the first member of an object does not continue a number. -/
theorem endsNumber_writeMembers (layout : Layout) (depth : Nat)
    (members : List (Option String × Json)) {rest : List Char} (hrest : EndsNumber rest) :
    EndsNumber (writeMembers layout depth members ++ rest) := by
  cases members with
  | nil => exact hrest
  | cons member members => exact .cons (by decide)

open Token in
mutual

/-- The text of a value is cut into its tokens, if what stands behind it does not continue a number. -/
theorem scanOnto_write {layout : Layout} (hblank : layout.Blank) :
    ∀ (value : Json) (depth : Nat) (read : List Token) {rest : List Char},
      value.WellFormed → EndsNumber rest →
      scanOnto read (write layout depth value ++ rest) = scanOnto (value.tokens.reverse ++ read) rest
  | .null, _, read, _, _, _ => scanOnto_eq read rfl
  | .bool true, _, read, _, _, _ => scanOnto_eq read rfl
  | .bool false, _, read, _, _, _ => scanOnto_eq read rfl
  | .number literal, _, read, _, .number hnumber, hrest => by
      rw [write, scanOnto_eq read (next?_number hnumber hrest)]
      rfl
  | .string text, _, read, rest, _, _ => by
      rw [write, scanOnto_eq read (string?_quote text rest)]
      rfl
  | .list [], _, read, rest, _, _ => by
      rw [write, List.cons_append, List.singleton_append, scanOnto_eq read rfl, scanOnto_eq _ rfl]
      rfl
  | .list (item :: items), depth, read, rest, .list hitems, _ => by
      have hclose : EndsNumber (layout.line depth ++ ']' :: rest) :=
        .append (hblank.line depth) (.cons (by decide))
      have hmore := endsNumber_writeItems layout (depth + 1) items hclose
      simp only [write, tokens, List.cons_append, List.append_assoc, List.nil_append]
      rw [scanOnto_eq read rfl, scanOnto_blanks _ (hblank.line _),
        scanOnto_write hblank item _ _ (hitems item List.mem_cons_self) hmore,
        scanOnto_writeItems hblank items _ _ (fun i hi => hitems i (List.mem_cons_of_mem _ hi)) hclose,
        scanOnto_blanks _ (hblank.line _), scanOnto_eq _ rfl]
      simp
  | .object [], _, read, rest, _, _ => by
      rw [write, List.cons_append, List.singleton_append, scanOnto_eq read rfl, scanOnto_eq _ rfl]
      rfl
  | .object (member :: members), depth, read, rest, .object hmembers, _ => by
      have hclose : EndsNumber (layout.line depth ++ '\x7d' :: rest) :=
        .append (hblank.line depth) (.cons (by decide))
      have hmore := endsNumber_writeMembers layout (depth + 1) members hclose
      simp only [write, tokens, List.cons_append, List.append_assoc, List.nil_append]
      rw [scanOnto_eq read rfl, scanOnto_blanks _ (hblank.line _),
        scanOnto_writeMember hblank member _ _ (hmembers member List.mem_cons_self) hmore,
        scanOnto_writeMembers hblank members _ _ (fun m hm => hmembers m (List.mem_cons_of_mem _ hm))
          hclose,
        scanOnto_blanks _ (hblank.line _), scanOnto_eq _ rfl]
      simp

theorem scanOnto_writeItems {layout : Layout} (hblank : layout.Blank) :
    ∀ (items : List Json) (depth : Nat) (read : List Token) {rest : List Char},
      (∀ item ∈ items, item.WellFormed) → EndsNumber rest →
      scanOnto read (writeItems layout depth items ++ rest) =
        scanOnto ((itemTokens items).reverse ++ read) rest
  | [], _, _, _, _, _ => rfl
  | item :: items, depth, read, rest, hitems, hrest => by
      have hmore := endsNumber_writeItems layout depth items hrest
      simp only [writeItems, itemTokens, List.cons_append, List.append_assoc]
      rw [scanOnto_eq read rfl, scanOnto_blanks _ (hblank.line _),
        scanOnto_write hblank item _ _ (hitems item List.mem_cons_self) hmore,
        scanOnto_writeItems hblank items _ _ (fun i hi => hitems i (List.mem_cons_of_mem _ hi)) hrest]
      simp

theorem scanOnto_writeMember {layout : Layout} (hblank : layout.Blank) :
    ∀ (member : Option String × Json) (depth : Nat) (read : List Token) {rest : List Char},
      member.2.WellFormed → EndsNumber rest →
      scanOnto read (writeMember layout depth member ++ rest) =
        scanOnto ((memberTokens member).reverse ++ read) rest
  | (key, value), depth, read, rest, hvalue, hrest => by
      simp only [writeMember, memberTokens, List.cons_append, List.append_assoc]
      rw [scanOnto_eq read (string?_quote key _), scanOnto_eq _ rfl, scanOnto_blanks _ hblank.gap,
        scanOnto_write hblank value _ _ hvalue hrest]
      simp

theorem scanOnto_writeMembers {layout : Layout} (hblank : layout.Blank) :
    ∀ (members : List (Option String × Json)) (depth : Nat) (read : List Token) {rest : List Char},
      (∀ member ∈ members, member.2.WellFormed) → EndsNumber rest →
      scanOnto read (writeMembers layout depth members ++ rest) =
        scanOnto ((memberListTokens members).reverse ++ read) rest
  | [], _, _, _, _, _ => rfl
  | member :: members, depth, read, rest, hmembers, hrest => by
      have hmore := endsNumber_writeMembers layout depth members hrest
      simp only [writeMembers, memberListTokens, List.cons_append, List.append_assoc]
      rw [scanOnto_eq read rfl, scanOnto_blanks _ (hblank.line _),
        scanOnto_writeMember hblank member _ _ (hmembers member List.mem_cons_self) hmore,
        scanOnto_writeMembers hblank members _ _ (fun m hm => hmembers m (List.mem_cons_of_mem _ hm))
          hrest]
      simp

end

/-- The text of a value is cut into its tokens, also if blanks stand behind it. -/
theorem scan?_write {layout : Layout} (hblank : layout.Blank) {value : Json}
    (h : value.WellFormed) (depth : Nat) {blanks : List Char}
    (hblanks : ∀ c ∈ blanks, isBlank c = true) :
    Token.scan? (write layout depth value ++ blanks) = some value.tokens := by
  have hend : EndsNumber (blanks ++ []) := .append hblanks .nil
  rw [List.append_nil] at hend
  have hstop := Token.scanOnto_blanks value.tokens.reverse hblanks []
  rw [List.append_nil] at hstop
  rw [Token.scan?, scanOnto_write hblank value depth [] h hend, List.append_nil, hstop,
    Token.scanOnto]
  simp

/-! ## From tokens to values -/

namespace Builder

theorem run_cons {builder : Builder} (next : Builder) {token : Token}
    (h : builder.step token = some next) (rest : List Token) : builder.run (token :: rest) = next.run rest := by
  rw [run, List.foldlM_cons, h]
  rfl

theorem run_of_append {builder next : Builder} {first : List Token}
    (h : builder.run first = some next) (rest : List Token) :
    builder.run (first ++ rest) = next.run rest := by
  rw [run_append, h]
  rfl

/-- The first item of a list is read as any other value, since no value begins with a closing bracket. -/
theorem run_firstItem (frames : List Frame) (value : Json) (rest : List Token) :
    run ⟨frames, .firstItem⟩ (value.tokens ++ rest) =
      run ⟨.list [] :: frames, .value⟩ (value.tokens ++ rest) := by
  cases value with
  | list items => cases items <;> rfl
  | object members => cases members <;> rfl
  | _ => rfl

/-- The first key of an object is read as any other key. -/
theorem run_firstKey (frames : List Frame) (member : Option String × Json) (rest : List Token) :
    run ⟨frames, .firstKey⟩ (memberTokens member ++ rest) =
      run ⟨frames, .key []⟩ (memberTokens member ++ rest) := by
  cases member
  rfl

mutual

/-- The tokens of a value complete that value, whatever containers are open. -/
theorem run_tokens : ∀ (value : Json) (frames : List Frame),
    run ⟨frames, .value⟩ value.tokens = some ⟨frames, .completed value⟩
  | .null, _ | .bool _, _ | .number _, _ | .string _, _ => rfl
  | .list [], _ | .object [], _ => rfl
  | .list (item :: items), frames => by
      rw [tokens, run_cons ⟨frames, .firstItem⟩ rfl, run_firstItem,
        run_of_append (run_tokens item _), run_itemTokens items]
      rfl
  | .object (member :: members), frames => by
      rw [tokens, run_cons ⟨frames, .firstKey⟩ rfl, run_firstKey,
        run_of_append (run_memberTokens member _ _), run_memberListTokens members]
      rfl

/-- The tokens of the items behind one that is completed complete the whole list. -/
theorem run_itemTokens : ∀ (items : List Json) (done : List Json) (item : Json)
    (frames : List Frame),
    run ⟨.list done :: frames, .completed item⟩ (itemTokens items ++ [.closeList]) =
      some ⟨frames, .completed (.list (done.reverse ++ item :: items))⟩
  | [], done, item, frames => by
      rw [itemTokens, List.nil_append, run_cons _ rfl, List.reverse_cons]
      rfl
  | next :: items, done, item, frames => by
      rw [itemTokens, List.cons_append, List.append_assoc,
        run_cons ⟨.list (item :: done) :: frames, .value⟩ rfl,
        run_of_append (run_tokens next _), run_itemTokens items]
      simp

/-- The tokens of a member complete its value behind its key. -/
theorem run_memberTokens : ∀ (member : Option String × Json)
    (done : List (Option String × Json)) (frames : List Frame),
    run ⟨frames, .key done⟩ (memberTokens member) =
      some ⟨.object done member.1 :: frames, .completed member.2⟩
  | (key, value), done, frames => by
      rw [memberTokens, run_cons ⟨frames, .colon done key⟩ rfl,
        run_cons ⟨.object done key :: frames, .value⟩ rfl, run_tokens value]

/-- The tokens of the members behind one that is completed complete the whole object. -/
theorem run_memberListTokens : ∀ (members done : List (Option String × Json))
    (key : Option String) (value : Json) (frames : List Frame),
    run ⟨.object done key :: frames, .completed value⟩
        (memberListTokens members ++ [.closeObject]) =
      some ⟨frames, .completed (.object (done.reverse ++ (key, value) :: members))⟩
  | [], done, key, value, frames => by
      rw [memberListTokens, List.nil_append, run_cons _ rfl, List.reverse_cons]
      rfl
  | next :: members, done, key, value, frames => by
      rw [memberListTokens, List.cons_append, List.append_assoc,
        run_cons ⟨frames, .key ((key, value) :: done)⟩ rfl,
        run_of_append (run_memberTokens next _ _), run_memberListTokens members]
      simp

end

end Builder

/-- The tokens of a value make that value. -/
theorem ofTokens?_tokens (value : Json) : ofTokens? value.tokens = some value := by
  rw [ofTokens?, Builder.start, Builder.run_tokens value []]
  rfl

/-! ## From texts to values -/

/-- A written value is read back, also if blanks stand behind it. -/
theorem parse?_write {layout : Layout} (hblank : layout.Blank) {value : Json}
    (h : value.WellFormed) {behind : String} (hbehind : ∀ c ∈ behind.toList, isBlank c = true) :
    parse? (String.ofList (write layout 0 value) ++ behind) = some value := by
  rw [parse?, String.toList_append, String.toList_ofList, scan?_write hblank h 0 hbehind,
    Option.bind_some, ofTokens?_tokens]

/-- A value written on one line is read back. -/
theorem parse?_compactText {value : Json} (h : value.WellFormed) :
    parse? value.compactText = some value := by
  have hread : parse? (value.compactText ++ "") = some value :=
    parse?_write Layout.blank_compact h (by simp)
  rwa [String.append_empty] at hread

/-- A value written over several lines is read back. -/
theorem parse?_prettyText {value : Json} (h : value.WellFormed) :
    parse? value.prettyText = some value := by
  have hread : parse? (value.prettyText ++ "") = some value :=
    parse?_write Layout.blank_pretty h (by simp)
  rwa [String.append_empty] at hread

end Json

end FirmwareSymbols
