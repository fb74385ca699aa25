import Mips.Command.Settings
import Mips.Proofs.Json.Reading

/-! # What a settings file says

* `Settings.DescribedBy`: the settings that a JSON value describes.
* `Settings.parse?_eq_some_iff`: a text is read as the settings that it describes as a JSON document,
  and it is refused if it describes none. -/

namespace Mips
set_option autoImplicit false

theorem ByteOrder.ofName?_eq_some_iff (name : String) (order : ByteOrder) :
    ofName? name = some order ↔ name = order.name := by
  unfold ofName?
  split <;> cases order <;> simp_all [ByteOrder.name]

theorem Reporting.ofName?_eq_some_iff (name : String) (reporting : Reporting) :
    ofName? name = some reporting ↔ name = reporting.name := by
  unfold ofName?
  split <;> cases reporting <;> simp_all [Reporting.name]

namespace Settings

/-! ## Descriptions -/

def IsAddress (value : JsonValue) (address : Address) : Prop :=
  value = .number (some address.toNat)

/-- A name is a string, or the only key of an object, with null. -/
def IsName (value : JsonValue) (name : String) : Prop :=
  value = .string (some name) ∨ value = .object [(some name, .null)]

/-- What is given is described by the value, and without a value it is the default. -/
def Fills {α : Type} (IsValue : JsonValue → α → Prop) (default : α) (value : Option JsonValue)
    (given : α) : Prop :=
  match value with
  | none => given = default
  | some value => IsValue value given

/-- The value of the only member with a key, or none if no member has it. -/
def IsMember (members : List (Option String × JsonValue)) (key : String) :
    Option JsonValue → Prop
  | none => ∀ value, (some key, value) ∉ members
  | some value => ∃ before after, members = before ++ (some key, value) :: after ∧
      ∀ other, (some key, other) ∉ before ++ after

/-- The settings of an object or an array. Where a value is missing they are the defaults. -/
inductive DescribedBy : JsonValue → Settings → Prop
  | object {members : List (Option String × JsonValue)} {base order reporting : Option JsonValue}
      {settings : Settings} :
      (∀ member ∈ members, member.1 ≠ none) →
        IsMember members "base_address" base → IsMember members "endian" order →
          IsMember members "error_mode" reporting →
            Fills IsAddress defaultBase base settings.base →
              Fills (fun value order => IsName value order.name) .little order settings.order →
                Fills (fun value reporting => IsName value reporting.name) .firstFault reporting
                    settings.reporting →
                  DescribedBy (.object members) settings
  | array {items : List JsonValue} {settings : Settings} :
      items.length ≤ 3 →
        Fills IsAddress defaultBase items[0]? settings.base →
          Fills (fun value order => IsName value order.name) .little items[1]? settings.order →
            Fills (fun value reporting => IsName value reporting.name) .firstFault items[2]?
                settings.reporting →
              DescribedBy (.array items) settings

/-! ## Reading -/

theorem readAddress_eq_some_iff (value : JsonValue) (address : Address) :
    readAddress value = some address ↔ IsAddress value address := by
  unfold readAddress IsAddress
  split
  · next n =>
    by_cases hn : n < 0x100000000
    · rw [if_pos hn, Option.some.injEq, ← BitVec.toNat_inj, BitVec.toNat_ofNat,
        Nat.mod_eq_of_lt hn]
      simp
    · have hlt := address.isLt
      have hne : n ≠ address.toNat := by omega
      rw [if_neg hn]
      simp [hne]
  · next hvalue =>
    simp only [reduceCtorEq, false_iff]
    exact hvalue _

theorem readName_eq_some_iff {α : Type} (ofName? : String → Option α) (value : JsonValue)
    (given : α) :
    readName ofName? value = some given ↔ ∃ name, IsName value name ∧ ofName? name = some given := by
  unfold readName IsName
  split
  · simp
  · simp
  · next hstring hobject =>
    simp only [reduceCtorEq, false_iff, not_exists, not_and]
    rintro name (rfl | rfl)
    · exact absurd rfl (hstring name)
    · exact absurd rfl (hobject name)

theorem readOrder_eq_some_iff (value : JsonValue) (order : ByteOrder) :
    readOrder value = some order ↔ IsName value order.name := by
  rw [readOrder, readName_eq_some_iff]
  simp [ByteOrder.ofName?_eq_some_iff]

theorem readReporting_eq_some_iff (value : JsonValue) (reporting : Reporting) :
    readReporting value = some reporting ↔ IsName value reporting.name := by
  rw [readReporting, readName_eq_some_iff]
  simp [Reporting.ofName?_eq_some_iff]

theorem filter_eq_nil_iff (members : List (Option String × JsonValue)) (key : String) :
    members.filter (·.1 == some key) = [] ↔ ∀ value, (some key, value) ∉ members := by
  rw [List.filter_eq_nil_iff]
  constructor
  · intro h value hmem
    exact h _ hmem BEq.rfl
  · rintro h ⟨name, value⟩ hmem hname
    obtain rfl : name = some key := beq_iff_eq.mp hname
    exact h value hmem

theorem isMember_iff_filter (members : List (Option String × JsonValue)) (key : String)
    (value : Option JsonValue) :
    IsMember members key value ↔
      members.filter (·.1 == some key) = (value.map fun value => (some key, value)).toList := by
  cases value with
  | none => exact (filter_eq_nil_iff members key).symm
  | some value =>
    simp only [IsMember, Option.map_some, Option.toList_some, List.filter_eq_cons_iff]
    constructor
    · rintro ⟨before, after, rfl, hothers⟩
      refine ⟨before, after, rfl, ?_, BEq.rfl, ?_⟩
      · exact List.filter_eq_nil_iff.mp ((filter_eq_nil_iff before key).mpr fun other hmem =>
          hothers other (List.mem_append_left after hmem))
      · exact (filter_eq_nil_iff after key).mpr fun other hmem =>
          hothers other (List.mem_append_right before hmem)
    · rintro ⟨before, after, rfl, hbefore, -, hafter⟩
      refine ⟨before, after, rfl, ?_⟩
      intro other hmem
      rcases List.mem_append.mp hmem with hmem | hmem
      · exact hbefore _ hmem BEq.rfl
      · exact (filter_eq_nil_iff after key).mp hafter other hmem

theorem readMember_eq_some_iff {α : Type} (members : List (Option String × JsonValue))
    (key : String) (default : α) (read : JsonValue → Option α) (given : α) :
    readMember members key default read = some given ↔
      ∃ value, IsMember members key value ∧
        Fills (fun value given => read value = some given) default value given := by
  simp only [isMember_iff_filter]
  constructor
  · intro h
    unfold readMember at h
    split at h
    · next hfilter => exact ⟨none, hfilter, (Option.some.inj h).symm⟩
    · next name value hfilter =>
      have hmem : (name, value) ∈ members.filter (·.1 == some key) := by
        rw [hfilter]
        exact List.mem_singleton_self _
      have hname := beq_iff_eq.mp (List.mem_filter.mp hmem).2
      refine ⟨some value, ?_, h⟩
      rw [hfilter, ← hname]
      rfl
    · cases h
  · rintro ⟨value, hfilter, hfills⟩
    rw [readMember, hfilter]
    cases value with
    | none => exact congrArg some hfills.symm
    | some value => exact hfills

theorem ofMembers?_eq_some_iff (members : List (Option String × JsonValue))
    (settings : Settings) :
    ofMembers? members = some settings ↔ DescribedBy (.object members) settings := by
  have hkeys : members.any (·.1.isNone) = true ↔ ¬ ∀ member ∈ members, member.1 ≠ none := by
    simp
  unfold ofMembers?
  by_cases hnames : ∀ member ∈ members, member.1 ≠ none
  · rw [if_neg (by rw [hkeys]; exact not_not_intro hnames)]
    simp only [Option.bind_eq_bind, Option.bind_eq_some_iff, readMember_eq_some_iff,
      readAddress_eq_some_iff, readOrder_eq_some_iff, readReporting_eq_some_iff]
    constructor
    · rintro ⟨base, ⟨_, hbaseMember, hbase⟩, order, ⟨_, horderMember, horder⟩, reporting,
        ⟨_, hreportingMember, hreporting⟩, heq⟩
      cases heq
      exact .object hnames hbaseMember horderMember hreportingMember hbase horder hreporting
    · intro h
      cases h with
      | object _ hbaseMember horderMember hreportingMember hbase horder hreporting =>
        exact ⟨_, ⟨_, hbaseMember, hbase⟩, _, ⟨_, horderMember, horder⟩, _,
          ⟨_, hreportingMember, hreporting⟩, rfl⟩
  · rw [if_pos (hkeys.mpr hnames)]
    simp only [reduceCtorEq, false_iff]
    intro h
    cases h with
    | object hkeys => exact hnames hkeys

theorem describedBy_array_iff (items : List JsonValue) (settings : Settings) :
    DescribedBy (.array items) settings ↔
      items.length ≤ 3 ∧ Fills IsAddress defaultBase items[0]? settings.base ∧
        Fills (fun value order => IsName value order.name) .little items[1]? settings.order ∧
        Fills (fun value reporting => IsName value reporting.name) .firstFault items[2]?
          settings.reporting := by
  constructor
  · intro h
    cases h with
    | array hlength hbase horder hreporting => exact ⟨hlength, hbase, horder, hreporting⟩
  · rintro ⟨hlength, hbase, horder, hreporting⟩
    exact .array hlength hbase horder hreporting

theorem ofItems?_eq_some_iff (items : List JsonValue) (settings : Settings) :
    ofItems? items = some settings ↔ DescribedBy (.array items) settings := by
  obtain ⟨base, order, reporting⟩ := settings
  rw [describedBy_array_iff]
  unfold ofItems?
  split
  · simp [Fills, eq_comm]
  · simp [Fills, Option.bind_eq_some_iff, readAddress_eq_some_iff, @eq_comm _ order,
      @eq_comm _ reporting]
  · simp [Fills, Option.bind_eq_some_iff, readAddress_eq_some_iff, readOrder_eq_some_iff,
      @eq_comm _ reporting]
  · simp [Fills, Option.bind_eq_some_iff, readAddress_eq_some_iff, readOrder_eq_some_iff,
      readReporting_eq_some_iff]
  · next hnil hone htwo hthree =>
    rcases items with _ | ⟨a, _ | ⟨b, _ | ⟨c, _ | ⟨d, items⟩⟩⟩⟩
    · exact absurd rfl hnil
    · exact absurd rfl (hone a)
    · exact absurd rfl (htwo a b)
    · exact absurd rfl (hthree a b c)
    · simp

theorem ofValue?_eq_some_iff (value : JsonValue) (settings : Settings) :
    ofValue? value = some settings ↔ DescribedBy value settings := by
  unfold ofValue?
  split
  · next members => exact ofMembers?_eq_some_iff members settings
  · next items => exact ofItems?_eq_some_iff items settings
  · next hobject harray =>
    simp only [reduceCtorEq, false_iff]
    intro h
    cases h with
    | object => exact hobject _ rfl
    | array => exact harray _ rfl

/-- A text is read as the settings that it describes. -/
theorem parse?_eq_some_iff (s : String) (settings : Settings) :
    parse? s = some settings ↔ ∃ value, value.IsDocument s ∧ DescribedBy value settings := by
  rw [parse?, Option.bind_eq_some_iff]
  simp only [JsonValue.parse?_eq_some_iff, ofValue?_eq_some_iff]

end Settings

end Mips
