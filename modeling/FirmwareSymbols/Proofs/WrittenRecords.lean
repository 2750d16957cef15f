import FirmwareSymbols.Json.Names
import FirmwareSymbols.Proofs.WrittenValues

/-!
# Written records are read back

Each type has a way of writing its values and a way of reading them. What
the two agree on is one property of a value: its written form has a text
and is read as the value itself. Numbers, texts and names have it, and
lists and optional values have it if their parts do. A record has it if
its members have names of their own, since then each field is the value of
the member with its name.

## Main definitions

* `Json.Restores`: writing and reading give a value back.

## Main results

* `Json.Restores.parse?_text`: a value is read back from both of its texts.
* `Json.restores_option`, `Json.restores_list`: values with parts.
* `Json.fields?_ofMembers`: the fields of a written record.
-/

namespace FirmwareSymbols

namespace Json

/-! ## Plain values -/

/-- The written form of a value has a text, and it is read as that value. -/
structure Restores {α : Type} (write : α → Json) (read : Json → Option α) (value : α) : Prop where
  wellFormed : (write value).WellFormed
  read_write : read (write value) = some value

section Plain

variable {α : Type} {write : α → Json} {read : Json → Option α}

/-- What is written is read back from its text, in either layout. -/
theorem Restores.parse?_text {value : α} (h : Restores write read value) :
    (parse? (write value).compactText).bind read = some value ∧
      (parse? (write value).prettyText).bind read = some value := by
  rw [parse?_compactText h.wellFormed, parse?_prettyText h.wellFormed]
  exact ⟨h.read_write, h.read_write⟩

theorem wellFormed_ofNat (n : Nat) : (ofNat n).WellFormed := .number (isNumber_toDigits n)

/-- A written number is read if it is below the bound of the reader. -/
theorem nat?_ofNat (bound n : Nat) :
    nat? bound (ofNat n) = if n < bound then some n else none := by
  rw [ofNat, nat?, Numeral.decimal?_toDigits]
  rfl

theorem restores_offset {n : Nat} (h : n < UInt64.size) : Restores ofNat offset? n :=
  ⟨wellFormed_ofNat n, by rw [offset?, nat?_ofNat, if_pos h]⟩

theorem restores_uint64 (n : UInt64) : Restores (fun n => ofNat n.toNat) uint64? n :=
  ⟨wellFormed_ofNat _, by simp [uint64?, nat?_ofNat, n.toNat_lt_size]⟩

theorem restores_uint32 (n : UInt32) : Restores (fun n => ofNat n.toNat) uint32? n :=
  ⟨wellFormed_ofNat _, by simp [uint32?, nat?_ofNat, n.toNat_lt_size]⟩

theorem restores_uint8 (n : UInt8) : Restores (fun n => ofNat n.toNat) uint8? n :=
  ⟨wellFormed_ofNat _, by simp [uint8?, nat?_ofNat, n.toNat_lt_size]⟩

theorem restores_bool (value : Bool) : Restores bool bool? value := ⟨.bool value, rfl⟩

theorem restores_text (text : String) : Restores ofString text? text := ⟨.string _, rfl⟩

/-- A value with a name is read by its name. -/
theorem restores_variant {variants : List (String × α)} {spelling : α → String} {value : α}
    (h : variants.lookup (spelling value) = some value) :
    Restores (fun value => ofString (spelling value)) (variant? variants) value :=
  ⟨.string _, h⟩

theorem wellFormed_ofOption {value : Option α} (h : ∀ x ∈ value, (write x).WellFormed) :
    (ofOption write value).WellFormed := by
  cases value with
  | none => exact .null
  | some x => exact h x rfl

theorem wellFormed_ofList {values : List α} (h : ∀ x ∈ values, (write x).WellFormed) :
    (ofList write values).WellFormed := by
  refine .list fun item hitem => ?_
  obtain ⟨x, hx, rfl⟩ := List.mem_map.1 hitem
  exact h x hx

/-- An optional value is restored if the value is, and if nothing but the missing value is written as
`null`. -/
theorem restores_option (value : Option α) (hnull : ∀ x, write x ≠ null)
    (h : ∀ x ∈ value, Restores write read x) : Restores (ofOption write) (option? read) value := by
  refine ⟨wellFormed_ofOption fun x hx => (h x hx).wellFormed, ?_⟩
  cases value with
  | none => rfl
  | some x =>
      show option? read (write x) = some (some x)
      rw [option?, (h x rfl).read_write]
      · rfl
      · exact hnull x

/-- A list is restored if its items are. -/
theorem restores_list (values : List α) (h : ∀ x ∈ values, Restores write read x) :
    Restores (ofList write) (listOf? read) values := by
  refine ⟨wellFormed_ofList fun x hx => (h x hx).wellFormed, ?_⟩
  show (values.map write).mapM read = some values
  induction values with
  | nil => rfl
  | cons x values ih =>
      rw [List.map_cons, List.mapM_cons, (h x List.mem_cons_self).read_write,
        ih fun y hy => h y (List.mem_cons_of_mem _ hy)]
      rfl

end Plain

/-! ## Records -/

theorem wellFormed_ofMembers {members : List (String × Json)}
    (h : ∀ member ∈ members, member.2.WellFormed) : (ofMembers members).WellFormed := by
  refine .object fun member hmember => ?_
  obtain ⟨named, hnamed, rfl⟩ := List.mem_map.1 hmember
  exact h named hnamed

/-- The member with a name, if no other member has the same name. -/
theorem lookup_ofMembers {members : List (String × Json)}
    (hnodup : (members.map (·.1)).Nodup) {member : String × Json} (hmember : member ∈ members) :
    (members.map fun member => (some member.1, member.2)).lookup (some member.1) =
      some member.2 := by
  induction members with
  | nil => cases hmember
  | cons first members ih =>
      rw [List.map_cons, List.nodup_cons] at hnodup
      rcases List.mem_cons.1 hmember with rfl | hbehind
      · simp
      · have hother : member.1 ≠ first.1 := by
          intro hsame
          exact hnodup.1 (hsame ▸ List.mem_map_of_mem hbehind)
        rw [List.map_cons, List.lookup_cons, beq_false_of_ne (by simpa using hother)]
        exact ih hnodup.2 hbehind

/-- A record can be read from members with names if no field is named twice. -/
theorem membersOk_ofMembers_iff {fields : List String} {members : List (String × Json)} :
    membersOk fields (members.map fun member => (some member.1, member.2)) = true ↔
      ∀ field ∈ fields, (members.map (·.1)).count field ≤ 1 := by
  have hkeys : (members.map fun member => (some member.1, member.2)).all (·.1.isSome) = true := by
    simp
  rw [membersOk, hkeys, Bool.true_and, List.all_eq_true]
  refine forall₂_congr fun field _ => ?_
  rw [decide_eq_true_eq, List.countP_map, List.count, List.countP_map]
  rfl

/-- The fields of a record are the values of its members, in the order in which they are written. -/
theorem fields?_ofMembers {fields : List String} {members : List (String × Json)}
    (hnames : members.map (·.1) = fields) (hnodup : fields.Nodup) (mayEndEarly : Bool) :
    fields? fields mayEndEarly (ofMembers members) =
      some (members.map fun member => some member.2) := by
  subst hnames
  rw [ofMembers, fields?, if_pos (membersOk_ofMembers_iff.2 fun field _ =>
    List.nodup_iff_count.1 hnodup field), List.map_map]
  congr 1
  exact List.map_congr_left fun member hmember => lookup_ofMembers hnodup hmember

end Json

/-! ## Release lines and byte orders -/

theorem Release.restores (release : Release) : Json.Restores toJson ofJson? release :=
  Json.restores_variant release.lookup_spellings

theorem ByteOrder.restores (order : ByteOrder) : Json.Restores toJson ofJson? order :=
  Json.restores_variant order.lookup_spellings

end FirmwareSymbols
