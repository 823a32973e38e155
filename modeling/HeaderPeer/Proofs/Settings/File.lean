/-
  HeaderPeer.Proofs.Settings.File — settings survive being saved and loaded.

  A file may list any of the fields, in any order and among members with other names.  Each member
  that is read sets one field and leaves the others, so after all of them the listed fields are as
  listed and the rest are as usual (`override`).  What is saved is such a file, with all fields in
  it.

  Main statements:
    * `put?_of_shows` — a member sets its field.
    * `ofMembers?_of_lists` — what a list of members comes to.
    * `load_of_lists`, `load_save` — files that list fields, and files that are saved.
-/
import HeaderPeer.Proofs.Json.Accepted
import HeaderPeer.Proofs.Json.Writing
import HeaderPeer.Settings.File

namespace HeaderPeer.Settings

/-! ## §1. Fields and their values -/

/-- Whether a value shows what a field is set to.  A network is named by itself or as the only
member of an object. -/
def Shows (s : Settings) (v : Json) : Field → Prop
  | .network => v.IsText s.network.name
      ∨ ∃ name, v = .object [(name, .null)] ∧ Json.Means name s.network.name.toList
  | .version => v.IsInt s.version.toInt
  | .maxPayload => v.IsInt s.maxPayload.toNat
  | .userAgent => v.IsText s.userAgent
  | .services => v.IsInt s.services.bits.toNat
  | .relay => v = .bool s.relay

/-- The settings of `base`, but in the given fields those of `s`. -/
def override (base s : Settings) (fields : List Field) : Settings where
  network := if .network ∈ fields then s.network else base.network
  version := if .version ∈ fields then s.version else base.version
  maxPayload := if .maxPayload ∈ fields then s.maxPayload else base.maxPayload
  userAgent := if .userAgent ∈ fields then s.userAgent else base.userAgent
  services := if .services ∈ fields then s.services else base.services
  relay := if .relay ∈ fields then s.relay else base.relay

theorem override_all (base s : Settings) : base.override s Field.all = s := rfl

/-- Fields can be set one after the other. -/
theorem override_cons (base s : Settings) (field : Field) (fields : List Field) :
    (base.override s [field]).override s fields = base.override s (field :: fields) := by
  simp only [override, mk.injEq, List.mem_cons, List.not_mem_nil, or_false]
  refine ⟨?_, ?_, ?_, ?_, ?_, ?_⟩
  all_goals split_ifs <;> simp_all

theorem ofName?_of_means {name : List Json.Piece} {network : Network}
    (h : Json.Means name network.name.toList) :
    (Json.text? name).bind Network.ofName? = some network := by
  rw [Json.text?_of_means h, Option.bind_some]
  cases network <;> rfl

/-- A network is found by its name in either form. -/
theorem network?_of_shows {s : Settings} {v : Json} (h : s.Shows v .network) :
    network? v = some s.network := by
  rcases h with ⟨name, rfl, hmeans⟩ | ⟨name, rfl, hmeans⟩
  · exact ofName?_of_means hmeans
  · exact ofName?_of_means hmeans

/-- **A value sets the field that it shows, and no other.** -/
theorem put?_of_shows {s : Settings} {v : Json} {field : Field} (h : s.Shows v field)
    (base : Settings) : base.put? v field = some (base.override s [field]) := by
  cases field with
  | network =>
    rw [put?, network?_of_shows h]
    rfl
  | version =>
    rw [put?, Json.int?_of_isInt h s.version.minValue_le_toInt s.version.toInt_le,
      Option.map_some, Int32.ofInt_toInt]
    rfl
  | maxPayload =>
    have hlt := s.maxPayload.toNat_lt
    rw [put?, Json.int?_of_isInt h (by omega) (by omega), Option.map_some, Int.toNat_natCast,
      UInt32.ofNat_toNat]
    rfl
  | userAgent =>
    rw [put?, Json.string?_of_isText h]
    rfl
  | services =>
    have hlt := s.services.bits.toNat_lt
    rw [put?, Json.int?_of_isInt h (by omega) (by omega), Option.map_some, Int.toNat_natCast,
      UInt64.ofNat_toNat]
    rfl
  | relay =>
    obtain rfl : v = .bool s.relay := h
    rfl

/-! ## §2. Members -/

/-- Members that list the given fields as they are set, each at its place among members with other
names and any values. -/
inductive Lists (s : Settings) : List (List Json.Piece × Json) → List Field → Prop where
  | nil : Lists s [] []
  | field {name v field ms fields} : Json.Means name (Field.name field).toList → s.Shows v field →
      Lists s ms fields → Lists s ((name, v) :: ms) (field :: fields)
  | other {name t v ms fields} : Json.Means name (String.toList t) →
      (∀ field, Field.name field ≠ t) → Lists s ms fields → Lists s ((name, v) :: ms) fields

theorem Field.ofName?_name (field : Field) : Field.ofName? field.name = some field := by
  cases field <;> decide

theorem Field.ofName?_eq_none {t : String} (h : ∀ field, Field.name field ≠ t) :
    Field.ofName? t = none := by
  refine List.find?_eq_none.2 fun field _ => ?_
  simp [h field]

/-- **The fields that are listed are set, and the others are left.**  No field is refused as given
before, for the list has each of them once. -/
theorem ofMembers?_of_lists {s : Settings} {ms : List (List Json.Piece × Json)}
    {fields : List Field} (h : Lists s ms fields) (hnodup : fields.Nodup) {given : List Field}
    (hgiven : ∀ field ∈ fields, field ∉ given) (base : Settings) :
    ofMembers? given base ms = some (base.override s fields) := by
  induction h generalizing given base with
  | nil => rfl
  | field hname hshows _ ih =>
    obtain ⟨hfresh, hnodup⟩ := List.nodup_cons.1 hnodup
    obtain ⟨hnew, hgiven⟩ := List.forall_mem_cons.1 hgiven
    simp only [ofMembers?, Json.text?_of_means hname, Field.ofName?_name, if_neg hnew,
      put?_of_shows hshows, Option.bind_some]
    rw [ih hnodup, override_cons]
    intro other hother hmem
    rcases List.mem_cons.1 hmem with rfl | hmem
    · exact hfresh hother
    · exact hgiven other hother hmem
  | other hname hother _ ih =>
    simp only [ofMembers?, Json.text?_of_means hname, Field.ofName?_eq_none hother]
    exact ih hnodup hgiven base

/-! ## §3. Files -/

/-- **A file sets what it lists**, and the rest is as usual. -/
theorem load_of_lists {s : Settings} {text : String} {ms : List (List Json.Piece × Json)}
    {fields : List Field} (htext : Json.Denotes text (.object ms)) (hlists : Lists s ms fields)
    (hnodup : fields.Nodup) : load (Bytes.ofText text) = .ok (usual.override s fields) := by
  have hmembers : ofMembers? [] usual ms = some (usual.override s fields) :=
    ofMembers?_of_lists hlists hnodup (fun _ _ => List.not_mem_nil) usual
  simp only [load, Bytes.toText?_ofText, Json.parse_eq_some htext, Option.bind_some, ofJson?,
    hmembers]

/-- What is written for a field shows what it is set to. -/
theorem exists_writes_written (s : Settings) (field : Field) :
    ∃ v, Json.Writes v (s.written field) ∧ s.Shows v field := by
  cases field with
  | network =>
    obtain ⟨v, hwrites, htext⟩ := Json.exists_writes_quote s.network.name
    exact ⟨v, hwrites, .inl htext⟩
  | version => exact Json.exists_writes_int s.version.toInt
  | maxPayload => exact Json.exists_writes_int s.maxPayload.toNat
  | userAgent => exact Json.exists_writes_quote s.userAgent
  | services => exact Json.exists_writes_int s.services.bits.toNat
  | relay =>
    refine ⟨.bool s.relay, ?_, rfl⟩
    show Json.Writes (.bool s.relay) (toString s.relay).toList
    cases s.relay with
    | true => exact .true
    | false => exact .false

theorem exists_members (s : Settings) (fields : List Field) :
    ∃ ms, List.Forall₂ Json.WritesMember
        (fields.map fun field => (field.name, s.written field)) ms ∧ Lists s ms fields := by
  induction fields with
  | nil => exact ⟨[], .nil, .nil⟩
  | cons field fields ih =>
    obtain ⟨ms, hms, hlists⟩ := ih
    obtain ⟨v, hv, hshows⟩ := exists_writes_written s field
    obtain ⟨name, hspells, hmeans⟩ := Json.exists_spells_escape field.name.toList
    exact ⟨(name, v) :: ms, .cons ⟨hspells, hv⟩ hms, .field hmeans hshows hlists⟩

/-- **What is saved is loaded.** -/
theorem load_save (s : Settings) : load s.save = .ok s := by
  obtain ⟨ms, hms, hlists⟩ := exists_members s Field.all
  have htext : Json.Denotes s.text (.object ms) := Json.denotes_layOut hms
  rw [save, load_of_lists htext hlists (by decide), override_all]

/-- **Settings survive files.**  What is saved is loaded, whatever the settings.  A file with an
object that lists some of the fields, each once and in any order among members with other names,
gives the fields that it lists and leaves the others as usual, however its strings are spelled. -/
theorem survive_files :
    (∀ s : Settings, load s.save = .ok s)
      ∧ ∀ {s : Settings} {text : String} {ms : List (List Json.Piece × Json)}
          {fields : List Field}, Json.Denotes text (.object ms) → Lists s ms fields →
          fields.Nodup → load (Bytes.ofText text) = .ok (usual.override s fields) :=
  ⟨load_save, load_of_lists⟩

/-- A file with two fields out of their order behind a member with another name.  A field's name and
a character beyond the first 65536 are given by units. -/
def scattered : String :=
  "\x7b\"new\": [-1.5e3, \x7b\x7d], \"user_agent\":\"\\ud83d\\uDE00\",\"rel\\u0061y\" :true\x7d\n"

def scatteredMembers : List (List Json.Piece × Json) :=
  [("new".toList.map .char, .array [.number ⟨true, ['1'], false⟩, .object []]),
    ("user_agent".toList.map .char, .string [.unit 0xd83d, .unit 0xde00]),
    ([.char 'r', .char 'e', .char 'l', .unit 0x61, .char 'y'], .bool true)]

theorem scattered_loaded :
    Json.Denotes scattered (.object scatteredMembers)
      ∧ Lists { usual with relay := true, userAgent := "😀" } scatteredMembers [.userAgent, .relay]
      ∧ load (Bytes.ofText scattered) = .ok { usual with relay := true, userAgent := "😀" } := by
  have htext : Json.Denotes scattered (.object scatteredMembers) := Json.denotes_of_parse rfl
  have hface : Json.Means [.unit 0xd83d, .unit 0xde00] "😀".toList :=
    @Json.Means.pair '😀' _ _ (by decide) .nil
  have hmeans : Json.Means [.char 'r', .char 'e', .char 'l', .unit 0x61, .char 'y']
      (Field.name .relay).toList :=
    .char (.char (.char (@Json.Means.unit 'a' _ _ (by decide) (.char .nil))))
  have hunknown : ∀ field, Field.name field ≠ "new" := by
    rintro ⟨⟩ <;> decide
  have hlists : Lists { usual with relay := true, userAgent := "😀" } scatteredMembers
      [.userAgent, .relay] :=
    .other (Json.means_chars _) hunknown
      (.field (Json.means_chars _) ⟨_, rfl, hface⟩ (.field hmeans rfl .nil))
  exact ⟨htext, hlists, survive_files.2 htext hlists (by decide)⟩

end HeaderPeer.Settings
