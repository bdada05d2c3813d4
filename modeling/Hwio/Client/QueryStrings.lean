import Hwio.Client.Lookups

/-!
Contract: the texts of a query, from `hwio_bus_remote.cpp` to
`hwio_server_query.cpp`.

Owns the fields that hold the texts of an item, what the server reads of each,
and when it reads nothing but the field.

Does not own the version of an item.
-/

namespace Hwio

open Library

/-! ## Fields -/

/-- The texts of a `Dev_query_item`. -/
inductive QueryField where
  | deviceName
  | vendorName
  | typeName
deriving DecidableEq, Repr

namespace QueryField

def offset : QueryField → Nat
  | .deviceName => 0
  | .vendorName => maxNameLen
  | .typeName => 2 * maxNameLen

/-- The text of a specification that a field is for. -/
def text (spec : HwioCompSpec) : QueryField → Text
  | .deviceName => spec.name
  | .vendorName => spec.vendor
  | .typeName => spec.type

end QueryField

/-- The server looks devices up for a QUERY with this body. -/
def AcceptedQuery (body : List Byte) : Prop :=
  ∃ header : HwioPacketHeader, QueryFramed header ∧ header.bodyLen.toNat = body.length

/-- The number of items of a body. -/
def itemCount (body : List Byte) : Nat := body.length / sizeofDevQueryItem

/-- The bytes of a field of an item. -/
def fieldBytes (body : List Byte) (item : Nat) (field : QueryField) : List Byte :=
  load body (item * sizeofDevQueryItem + field.offset) maxNameLen

/-- The text that the server has from a field, when the receive buffer holds some
bytes behind the body. -/
def arrived (body behind : List Byte) (item : Nat) (field : QueryField) : Option Text :=
  ((extractSpecFromClientQuery (body ++ behind) (itemCount body))[item]?).map field.text

/-- The text of a field has at most as many characters as the field, and is the
same in every accepted body with the same bytes in this field. -/
structure KeptApart (body : List Byte) (item : Nat) (field : QueryField) : Prop where
  bounded : ∀ behind text, arrived body behind item field = some text → text.length ≤ maxNameLen
  own : ∀ other behind behind', AcceptedQuery other → item < itemCount other →
    fieldBytes other item field = fieldBytes body item field →
      arrived other behind' item field = arrived body behind item field

/-! ## Reading a field -/

theorem arrived_eq {body : List Byte} {item : Nat} (inside : item < itemCount body)
    (behind : List Byte) (field : QueryField) :
    arrived body behind item field =
      some (cstr ((body ++ behind).drop (item * sizeofDevQueryItem + field.offset))) := by
  have ranged : (List.range (itemCount body))[item]? = some item := List.getElem?_range inside
  have read : ∀ memory place, field.text (HwioCompSpec.at memory place) =
      cstr (memory.drop (place + field.offset)) := by
    intro memory place
    cases field with
    | deviceName | vendorName | typeName => rfl
  rw [arrived, extractSpecFromClientQuery, List.getElem?_map, ranged, Option.map_some,
    Option.map_some, read]

/-- Behind each field the item goes on. -/
theorem field_inside {body : List Byte} {item : Nat} (inside : item < itemCount body)
    (field : QueryField) :
    item * sizeofDevQueryItem + field.offset + maxNameLen < body.length := by
  have whole : (item + 1) * sizeofDevQueryItem ≤ body.length :=
    (Nat.le_div_iff_mul_le (by decide)).mp (Nat.succ_le_of_lt inside)
  have room : field.offset + maxNameLen < sizeofDevQueryItem := by
    cases field with
    | deviceName | vendorName | typeName => decide
  rw [Nat.succ_mul] at whole
  omega

/-- A field with a zero is read up to this zero. -/
theorem arrived_of_zero {body : List Byte} {item : Nat} {field : QueryField}
    (inside : item < itemCount body) (ends : 0 ∈ fieldBytes body item field)
    (behind : List Byte) :
    arrived body behind item field = some (cstr (fieldBytes body item field)) := by
  have kept : load (body ++ behind) (item * sizeofDevQueryItem + field.offset) maxNameLen =
      fieldBytes body item field :=
    load_append_left behind (Nat.le_of_lt (field_inside inside field))
  rw [arrived_eq inside, cstr_drop_of_load (kept.symm ▸ ends), kept]

/-- The body with another byte behind a field. -/
def withNext (body : List Byte) (item : Nat) (field : QueryField) (next : Byte) : List Byte :=
  body.set (item * sizeofDevQueryItem + field.offset + maxNameLen) next

theorem withNext_length (body : List Byte) (item : Nat) (field : QueryField) (next : Byte) :
    (withNext body item field next).length = body.length :=
  List.length_set ..

theorem withNext_drop {body : List Byte} {item : Nat} (inside : item < itemCount body)
    (field : QueryField) (next : Byte) :
    ∃ rest, (withNext body item field next).drop (item * sizeofDevQueryItem + field.offset) =
      fieldBytes body item field ++ next :: rest := by
  have room := field_inside inside field
  refine ⟨body.drop (item * sizeofDevQueryItem + field.offset + maxNameLen + 1), ?_⟩
  rw [fieldBytes, load_eq_take_drop (Nat.le_of_lt room), withNext, List.set_eq_take_append_cons_drop,
    if_pos room, List.drop_append_of_le_length (by rw [List.length_take]; omega), List.drop_take,
    Nat.add_sub_cancel_left]

/-- A field without a zero is read on with the byte behind it. -/
theorem arrived_withNext {body : List Byte} {item : Nat} {field : QueryField}
    (inside : item < itemCount body) (goesOn : 0 ∉ fieldBytes body item field) (next : Byte) :
    ∃ rest, arrived (withNext body item field next) [] item field =
      some (fieldBytes body item field ++ cstr (next :: rest)) := by
  obtain ⟨rest, shown⟩ := withNext_drop inside field next
  have same : item < itemCount (withNext body item field next) := by
    rw [itemCount, withNext_length]
    exact inside
  refine ⟨rest, ?_⟩
  rw [arrived_eq same, List.append_nil, shown, cstr_append_of_not_mem goesOn]

/-- A text is kept apart from its neighbours just when its field has a zero. -/
theorem keptApart_iff {body : List Byte} (accepted : AcceptedQuery body) {item : Nat}
    (inside : item < itemCount body) (field : QueryField) :
    KeptApart body item field ↔ 0 ∈ fieldBytes body item field := by
  constructor
  · intro kept
    by_contra goesOn
    have same : ∀ next, fieldBytes (withNext body item field next) item field =
        fieldBytes body item field := by
      intro next
      obtain ⟨rest, shown⟩ := withNext_drop inside field next
      have room := Nat.le_of_lt (field_inside inside field)
      rw [← withNext_length body item field next] at room
      rw [fieldBytes, load_eq_take_drop room, shown]
      exact List.take_left' (load_length ..)
    have others : ∀ next, arrived (withNext body item field next) [] item field =
        arrived body [] item field := by
      intro next
      have length := withNext_length body item field next
      apply kept.own _ _ _ _ _ (same next)
      · obtain ⟨header, framed, size⟩ := accepted
        exact ⟨header, framed, by rw [size, length]⟩
      · rw [itemCount, length]
        exact inside
    obtain ⟨_, ended⟩ := arrived_withNext inside goesOn 0
    obtain ⟨_, longer⟩ := arrived_withNext inside goesOn 1
    rw [others] at ended longer
    have both := ended.symm.trans longer
    rw [cstr_cons_zero, cstr_cons_of_ne (by decide), Option.some.injEq] at both
    exact absurd (List.append_cancel_left both) (by simp)
  · intro ends
    constructor
    · intro behind text read
      rw [arrived_of_zero inside ends, Option.some.injEq] at read
      rw [← read]
      exact Nat.le_trans (cstr_length_le _) (Nat.le_of_eq (load_length ..))
    · intro other behind behind' _ within same
      rw [arrived_of_zero inside ends, arrived_of_zero within (same.symm ▸ ends), same]

/-! ## The texts of a client -/

theorem zero_mem_copyStrToResp (src : Text) :
    0 ∈ copyStrToResp src ↔ (cstr src).length < maxNameLen := by
  have free := zero_not_mem_cstr src
  rw [copyStrToResp, ← strncpy_cstr]
  by_cases short : (cstr src).length < maxNameLen
  · rw [strncpy_of_le free (Nat.le_of_lt short)]
    refine iff_of_true (List.mem_append_right _ ?_) short
    exact List.mem_replicate.mpr ⟨Nat.sub_ne_zero_of_lt short, rfl⟩
  · rw [strncpy_of_ge free (Nat.not_lt.mp short)]
    exact iff_of_false (fun member => free (List.mem_of_mem_take member)) short

theorem queryItem_field (spec : HwioCompSpec) (field : QueryField) :
    load spec.queryItem field.offset maxNameLen = copyStrToResp (field.text spec) := by
  have name := strncpy_length spec.name maxNameLen
  have vendor := strncpy_length spec.vendor maxNameLen
  have type := strncpy_length spec.type maxNameLen
  have fits : field.offset + maxNameLen ≤ spec.queryItem.length := by
    rw [Op.queryItem_length]
    cases field with
    | deviceName | vendorName | typeName => decide
  rw [load_eq_take_drop fits]
  unfold HwioCompSpec.queryItem copyStrToResp
  cases field with
  | deviceName => exact List.take_left' name
  | vendorName =>
      rw [QueryField.offset, List.drop_left' name]
      exact List.take_left' vendor
  | typeName =>
      rw [QueryField.offset, Nat.two_mul, ← List.drop_drop, List.drop_left' name,
        List.drop_left' vendor]
      exact List.take_left' type

theorem fieldBytes_queryItem {specs : List HwioCompSpec} {item : Nat} {spec : HwioCompSpec}
    (among : specs[item]? = some spec) (field : QueryField) :
    fieldBytes (specs.flatMap HwioCompSpec.queryItem) item field =
      copyStrToResp (field.text spec) := by
  have length := Op.queryItem_length
  unfold fieldBytes
  induction specs generalizing item with
  | nil => cases among
  | cons first rest inductionHypothesis =>
      rw [List.flatMap_cons]
      cases item with
      | zero =>
          rw [List.getElem?_cons_zero, Option.some.injEq] at among
          subst among
          rw [Nat.zero_mul, Nat.zero_add, load_append_left, queryItem_field]
          rw [length]
          cases field with
          | deviceName | vendorName | typeName => decide
      | succ item =>
          rw [← inductionHypothesis among, load, load, Nat.succ_mul, Nat.add_right_comm,
            Nat.add_comm, ← List.drop_drop, List.drop_left' (length first)]

theorem itemCount_queryItem (specs : List HwioCompSpec) :
    itemCount (specs.flatMap HwioCompSpec.queryItem) = specs.length := by
  have length : (specs.flatMap HwioCompSpec.queryItem).length =
      specs.length * sizeofDevQueryItem := by
    induction specs with
    | nil => rfl
    | cons first rest inductionHypothesis =>
        rw [List.flatMap_cons, List.length_append, Op.queryItem_length, inductionHypothesis,
          List.length_cons, Nat.succ_mul, Nat.add_comm]
  rw [itemCount, length]
  exact Nat.mul_div_cancel _ (by decide)

/-- For every accepted query and every text of it, the server has the text from
the bytes of its own field alone just when there is a zero in the field; of the
texts that a client sends, just when the text is shorter than the field, and
then it arrives whole. -/
theorem query_strings_kept_apart_iff {body : List Byte} (accepted : AcceptedQuery body)
    {item : Nat} (inside : item < itemCount body) (field : QueryField) :
    (KeptApart body item field ↔ 0 ∈ fieldBytes body item field) ∧
      ∀ (specs : List HwioCompSpec) (spec : HwioCompSpec),
        body = specs.flatMap HwioCompSpec.queryItem → specs[item]? = some spec →
          (KeptApart body item field ↔ (cstr (field.text spec)).length < maxNameLen) ∧
          ((cstr (field.text spec)).length < maxNameLen → ∀ behind,
            arrived body behind item field = some (cstr (field.text spec))) := by
  refine ⟨keptApart_iff accepted inside field, ?_⟩
  intro specs spec sent among
  have copied : fieldBytes body item field = copyStrToResp (field.text spec) := by
    rw [sent, fieldBytes_queryItem among]
  have ends_iff : 0 ∈ fieldBytes body item field ↔
      (cstr (field.text spec)).length < maxNameLen := by
    rw [copied, zero_mem_copyStrToResp]
  refine ⟨(keptApart_iff accepted inside field).trans ends_iff, ?_⟩
  intro short behind
  have whole := cstr_strncpy (zero_not_mem_cstr (field.text spec)) short []
  rw [List.append_nil, strncpy_cstr] at whole
  rw [arrived_of_zero inside (ends_iff.mpr short), copied, copyStrToResp, whole]

/-- A query for one device of a vendor. -/
def vendorQuery (name : Text) : List HwioCompSpec := [⟨name, text "xilinx", text "uart", ⟨1, 0, 0⟩⟩]

theorem vendorQuery_accepted (name : Text) :
    AcceptedQuery ((vendorQuery name).flatMap HwioCompSpec.queryItem) := by
  refine ⟨⟨HwioCmd.query.code, 396⟩, ⟨by decide, by decide, by decide⟩, ?_⟩
  rw [vendorQuery, List.flatMap_singleton, Op.queryItem_length]
  rfl

/-- A short name arrives whole. -/
theorem short_name_arrives :
    KeptApart ((vendorQuery (text "uart0")).flatMap HwioCompSpec.queryItem) 0 .deviceName ∧
      arrived ((vendorQuery (text "uart0")).flatMap HwioCompSpec.queryItem) [7, 7] 0 .deviceName =
        some (text "uart0") := by
  have item : (vendorQuery (text "uart0"))[0]? =
    some ⟨text "uart0", text "xilinx", text "uart", ⟨1, 0, 0⟩⟩ := rfl
  have inside : 0 < itemCount ((vendorQuery (text "uart0")).flatMap HwioCompSpec.queryItem) := by
    rw [itemCount_queryItem]
    decide
  obtain ⟨_, sent⟩ :=
    query_strings_kept_apart_iff (vendorQuery_accepted (text "uart0")) inside .deviceName
  obtain ⟨kept, whole⟩ := sent _ _ rfl item
  exact ⟨kept.mpr (by decide), whole (by decide) [7, 7]⟩

/-- A name of 128 characters arrives with the vendor behind it. -/
theorem long_name_runs_on :
    let specs := vendorQuery (List.replicate 128 97)
    AcceptedQuery (specs.flatMap HwioCompSpec.queryItem) ∧
      arrived (specs.flatMap HwioCompSpec.queryItem) [] 0 .deviceName =
        some (List.replicate 128 97 ++ text "xilinx") ∧
      ¬ KeptApart (specs.flatMap HwioCompSpec.queryItem) 0 .deviceName := by
  have read : arrived ((vendorQuery (List.replicate 128 97)).flatMap HwioCompSpec.queryItem) [] 0
      .deviceName = some (List.replicate 128 97 ++ text "xilinx") := by
    decide +kernel
  refine ⟨vendorQuery_accepted _, read, ?_⟩
  intro kept
  have bounded := kept.bounded [] _ read
  rw [List.length_append, List.length_replicate] at bounded
  exact absurd bounded (by decide)

end Hwio
