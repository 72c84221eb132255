import Mathlib.Data.List.Nodup
import Scrapscript.Settings.Decode

/-!
What settings are read from an object. Only the members with a known key count, each on its own:
the order of the members and all other keys do not. What is written for settings is read as the
same settings.
-/

namespace Scrapscript

namespace Json

variable {key : Text} {value : Json} {members : List (Text × Json)}

theorem mem_of_lastMember? (found : lastMember? key members = some value) :
    (key, value) ∈ members := by
  induction members with
  | nil => contradiction
  | cons member rest inductionHypothesis =>
      obtain ⟨name, first⟩ := member
      unfold lastMember? at found
      split at found
      · rename_i later earlier
        obtain rfl := Option.some.inj found
        exact List.mem_cons_of_mem _ (inductionHypothesis earlier)
      · split at found
        · rename_i same
          obtain rfl := Option.some.inj found
          subst same
          exact List.mem_cons_self
        · contradiction

theorem lastMember?_eq_none_iff : lastMember? key members = none ↔ key ∉ members.map Prod.fst := by
  induction members with
  | nil => simp [lastMember?]
  | cons member rest inductionHypothesis =>
      obtain ⟨name, first⟩ := member
      rw [List.map_cons, List.mem_cons, not_or, ← inductionHypothesis, lastMember?]
      split
      · rename_i later found
        simp [found]
      · rename_i absent
        simp [absent, eq_comm]

/-- Among members with distinct keys, looking one up is finding it. -/
theorem lastMember?_eq_some_iff (distinct : (members.map Prod.fst).Nodup) :
    lastMember? key members = some value ↔ (key, value) ∈ members := by
  refine ⟨mem_of_lastMember?, fun listed => ?_⟩
  cases found : lastMember? key members with
  | none => exact absurd (List.mem_map_of_mem listed) (lastMember?_eq_none_iff.mp found)
  | some other =>
      have same := List.inj_on_of_nodup_map distinct (mem_of_lastMember? found) listed rfl
      exact congrArg some (Prod.ext_iff.mp same).2

end Json

namespace Settings

open Json (lastMember? mem_of_lastMember? lastMember?_eq_none_iff lastMember?_eq_some_iff)

/-- What settings are read from in an object: the member under the name of the section if there is
one, and otherwise the object itself. -/
inductive Source (members : List (Text × Json)) : Json → Prop
  | wrapped {json : Json} (listed : (sectionName.toList, json) ∈ members) : Source members json
  | bare (absent : sectionName.toList ∉ members.map Prod.fst) : Source members (.object members)

inductive Expected.Admits : Expected → Json → Prop
  | flag (value : Bool) : Admits .flag (.bool value)
  | count (value : Nat) (fits : value < 18446744073709551616) : Admits .count (.integer value)
  | members (members : List (Text × Json)) : Admits .settings (.object members)
  | elements (elements : List Json) : Admits .settings (.array elements)

/-- The error for a value that is not what is expected. A whole number in the place of a count is
of the right type and out of bounds. -/
def Expected.refusal? : Expected → Json → Option ConfigError
  | .flag, .bool _ => none
  | .count, .integer value =>
      if 0 ≤ value ∧ value ≤ countLimit then none
      else some (.wrongValue (.integer value) .count)
  | .settings, .object _ => none
  | .settings, .array _ => none
  | expected, other => some (.wrongType other expected)

theorem Expected.refusal?_eq_none_iff {expected : Expected} {json : Json} :
    expected.refusal? json = none ↔ expected.Admits json := by
  constructor
  · intro accepted
    unfold refusal? at accepted
    split at accepted
    · exact .flag _
    · rename_i value
      split at accepted
      · rename_i fits
        obtain ⟨count, rfl⟩ := Int.eq_ofNat_of_zero_le fits.1
        have bounded : (count : Int) ≤ 0xFFFFFFFFFFFFFFFF := fits.2
        exact .count count (by omega)
      · contradiction
    · exact .members _
    · exact .elements _
    · contradiction
  · intro admitted
    cases admitted with
    | count value fits =>
        have bounded : (value : Int) ≤ countLimit := by
          unfold countLimit
          omega
        exact if_pos ⟨Int.natCast_nonneg value, bounded⟩
    | _ => rfl

/-- The keys of settings in alphabetical order, each with what it expects. -/
def known : List (String × Expected) :=
  [("enhancedValidation", .flag), ("exhaustivenessChecking", .flag),
    ("maxNumberOfProblems", .count), ("semanticTokens", .flag), ("typeChecking", .flag)]

/-- The members that are written for settings. -/
def written (settings : Settings) : List (Text × Json) :=
  [("maxNumberOfProblems".toList, .integer settings.problemLimit),
    ("enhancedValidation".toList, .bool settings.validation),
    ("typeChecking".toList, .bool settings.typeChecking),
    ("exhaustivenessChecking".toList, .bool settings.exhaustiveness),
    ("semanticTokens".toList, .bool settings.highlighting)]

theorem mem_written {settings : Settings} {member : Text × Json} : member ∈ settings.written ↔
    member = ("maxNumberOfProblems".toList, .integer settings.problemLimit) ∨
    member = ("enhancedValidation".toList, .bool settings.validation) ∨
    member = ("typeChecking".toList, .bool settings.typeChecking) ∨
    member = ("exhaustivenessChecking".toList, .bool settings.exhaustiveness) ∨
    member = ("semanticTokens".toList, .bool settings.highlighting) := by
  simp only [written, List.mem_cons, List.not_mem_nil, or_false]

theorem toJson_eq (settings : Settings) : settings.toJson = .object settings.written := rfl

theorem nodup_written (settings : Settings) : (settings.written.map Prod.fst).Nodup := by
  simp [written]

/-- The error for the value of a key, if it has one. -/
def refusalIn? (members : List (Text × Json)) (entry : String × Expected) : Option ConfigError :=
  (lastMember? entry.1.toList members).bind entry.2.refusal?

/-- Whether a member of the settings that are read is given, or is the default as its key is not
given. -/
def Taken (members : List (Text × Json)) (member : Text × Json) : Prop :=
  lastMember? member.1 members = some member.2 ∨
    lastMember? member.1 members = none ∧ member ∈ default.written

section Reading

variable {α β : Type} {members : List (Text × Json)}

/-- Reading some keys fails with the first refusal among them, and otherwise gives a value that
satisfies a condition. -/
def Yields (members : List (Text × Json)) (entries : List (String × Expected))
    (result : Except ConfigError α) (condition : α → Prop) : Prop :=
  (∃ error, entries.findSome? (refusalIn? members) = some error ∧ result = .error error) ∨
    entries.findSome? (refusalIn? members) = none ∧ ∃ value, result = .ok value ∧ condition value

theorem Yields.bind {entry : String × Expected} {later : List (String × Expected)}
    {first : Except ConfigError α} {next : α → Except ConfigError β} {taken : α → Prop}
    {condition : β → Prop} (read : Yields members [entry] first taken)
    (rest : ∀ value, taken value → Yields members later (next value) condition) :
    Yields members (entry :: later) (first >>= next) condition := by
  have joined : (entry :: later).findSome? (refusalIn? members) =
      ([entry].findSome? (refusalIn? members)).or (later.findSome? (refusalIn? members)) := by
    rw [← List.singleton_append, List.findSome?_append]
  obtain ⟨error, refused, rfl⟩ | ⟨accepted, value, rfl, given⟩ := read
  · exact .inl ⟨error, by rw [joined, refused, Option.some_or], rfl⟩
  · unfold Yields
    rw [joined, accepted, Option.none_or]
    exact rest value given

/-- Reading a value gives the error of what is expected, or what the value is written for. -/
def Reads (expected : Expected) (write : α → Json) (read : Json → Except ConfigError α) : Prop :=
  ∀ json : Json, (∃ error, expected.refusal? json = some error ∧ read json = .error error) ∨
    expected.refusal? json = none ∧ ∃ value, read json = .ok value ∧ json = write value

theorem readFlag_reads : Reads .flag .bool readFlag := by
  intro json
  cases json with
  | bool value => exact .inr ⟨rfl, value, rfl, rfl⟩
  | _ => exact .inl ⟨_, rfl, rfl⟩

theorem readCount_reads : Reads .count (fun count : Nat => .integer count) readCount := by
  intro json
  cases json with
  | integer value =>
      rw [Expected.refusal?, readCount]
      split
      · rename_i fits
        exact .inr ⟨rfl, _, rfl, congrArg Json.integer (Int.toNat_of_nonneg fits.1).symm⟩
      · exact .inl ⟨_, rfl, rfl⟩
  | _ => exact .inl ⟨_, rfl, rfl⟩

theorem Reads.yields {expected : Expected} {write : α → Json}
    {read : Json → Except ConfigError α} {fallback : α} {key : String}
    (reads : Reads expected write read) (listed : (key.toList, write fallback) ∈ default.written) :
    Yields members [(key, expected)] (orDefault read fallback (lastMember? key.toList members))
      fun value => Taken members (key.toList, write value) := by
  have single : [(key, expected)].findSome? (refusalIn? members) =
      (lastMember? key.toList members).bind expected.refusal? := by
    rw [List.findSome?_singleton]
    rfl
  unfold Yields Taken
  rw [single]
  cases found : lastMember? key.toList members with
  | none => exact .inr ⟨rfl, fallback, rfl, .inr ⟨found, listed⟩⟩
  | some json =>
      obtain refused | ⟨accepted, value, result, rfl⟩ := reads json
      · exact .inl refused
      · exact .inr ⟨accepted, value, result, .inl found⟩

end Reading

variable {members : List (Text × Json)} {settings : Settings}

/-- The settings that members give: the first refusal in the order of the keys is the error, and
without one each setting is the value of its key or the default. -/
theorem ofMembers_yields (members : List (Text × Json)) :
    Yields members known (ofMembers members)
      fun settings => ∀ member ∈ settings.written, Taken members member := by
  unfold ofMembers known
  refine (readFlag_reads.yields (by simp [written])).bind fun validation validated => ?_
  refine (readFlag_reads.yields (by simp [written])).bind fun exhaustiveness exhausted => ?_
  refine (readCount_reads.yields (by simp [written])).bind fun problemLimit limited => ?_
  refine (readFlag_reads.yields (by simp [written])).bind fun highlighting highlighted => ?_
  refine (readFlag_reads.yields (by simp [written])).bind fun typeChecking typeChecked => ?_
  refine .inr ⟨rfl, _, rfl, fun member listed => ?_⟩
  obtain rfl | rfl | rfl | rfl | rfl := mem_written.mp listed
  exacts [limited, validated, typeChecked, exhausted, highlighted]

theorem refusalIn?_eq_none_iff {entry : String × Expected} :
    refusalIn? members entry = none ↔
      ∀ value, lastMember? entry.1.toList members = some value → entry.2.Admits value := by
  unfold refusalIn?
  cases lastMember? entry.1.toList members with
  | none => simp
  | some value => simp [Expected.refusal?_eq_none_iff]

theorem ofJson_of_source {json : Json} (distinct : (members.map Prod.fst).Nodup)
    (source : Source members json) : ofJson (.object members) = ofBare json := by
  unfold ofJson
  cases source with
  | wrapped listed =>
      have found : (Json.object members).get? sectionName.toList = some json :=
        (lastMember?_eq_some_iff distinct).mpr listed
      rw [found]
      rfl
  | bare absent =>
      have missing : (Json.object members).get? sectionName.toList = none :=
        lastMember?_eq_none_iff.mpr absent
      rw [missing]
      rfl

theorem ofMembers_written (settings : Settings) :
    ofMembers settings.written =
      (readCount (.integer settings.problemLimit)).map settings.withLimit := by
  have read : ofMembers settings.written =
      readCount (.integer settings.problemLimit) >>= fun limit =>
        .ok (settings.withLimit limit) := by
    simp [ofMembers, written, lastMember?, orDefault, readFlag, withLimit, bind, Except.bind, pure,
      Except.pure]
  rw [read]
  cases readCount (.integer settings.problemLimit) <;> rfl

/-- What is written for settings is read as they are, as long as their limit is a count. -/
theorem ofMembers_written_iff (settings : Settings) :
    ofMembers settings.written = .ok settings ↔ settings.problemLimit < 18446744073709551616 := by
  rw [ofMembers_written, readCount]
  have bound : (0 ≤ (settings.problemLimit : Int) ∧ settings.problemLimit ≤ countLimit) ↔
      settings.problemLimit < 18446744073709551616 := by
    unfold countLimit
    omega
  split
  · rename_i fits
    exact ⟨fun _ => bound.mp fits, fun _ => rfl⟩
  · rename_i beyond
    refine ⟨fun _ => by contradiction, fun fits => absurd (bound.mpr fits) beyond⟩

/-- Members that agree on the known keys give the same settings, or the same error. -/
theorem ofMembers_congr {others : List (Text × Json)}
    (same : ∀ entry ∈ known,
      lastMember? entry.1.toList others = lastMember? entry.1.toList members) :
    ofMembers others = ofMembers members := by
  simp only [known, List.forall_mem_cons] at same
  obtain ⟨validation, exhaustiveness, problemLimit, highlighting, typeChecking, -⟩ := same
  simp only [ofMembers, validation, exhaustiveness, problemLimit, highlighting, typeChecking]

theorem lastMember?_congr {key : Text} {others : List (Text × Json)}
    (distinct : (members.map Prod.fst).Nodup) (unrepeated : (others.map Prod.fst).Nodup)
    (same : ∀ value, (key, value) ∈ others ↔ (key, value) ∈ members) :
    lastMember? key others = lastMember? key members := by
  refine Option.ext fun value => ?_
  rw [lastMember?_eq_some_iff distinct, lastMember?_eq_some_iff unrepeated]
  exact same value

theorem taken_iff {member : Text × Json} (distinct : (members.map Prod.fst).Nodup) :
    Taken members member ↔
      member ∈ members ∨ member.1 ∉ members.map Prod.fst ∧ member ∈ default.written := by
  rw [Taken, lastMember?_eq_some_iff distinct, lastMember?_eq_none_iff]

theorem ofMembers_eq_error_iff {error : ConfigError} :
    ofMembers members = .error error ↔ known.findSome? (refusalIn? members) = some error := by
  obtain ⟨first, refused, failed⟩ | ⟨accepted, settings, read, -⟩ := ofMembers_yields members
  · rw [refused, failed, Except.error.injEq, Option.some.injEq]
  · simp [accepted, read]

theorem ofMembers_eq_ok_iff : (∃ settings, ofMembers members = .ok settings) ↔
    ∀ entry ∈ known, ∀ value, lastMember? entry.1.toList members = some value →
      entry.2.Admits value := by
  have accepted : known.findSome? (refusalIn? members) = none ↔
      ∀ entry ∈ known, ∀ value, lastMember? entry.1.toList members = some value →
        entry.2.Admits value := by
    simp only [List.findSome?_eq_none_iff, refusalIn?_eq_none_iff]
  rw [← accepted]
  obtain ⟨first, refused, failed⟩ | ⟨accepted, settings, read, -⟩ := ofMembers_yields members
  · simp [refused, failed]
  · simp [accepted, read]

theorem taken_of_ofMembers (read : ofMembers members = .ok settings) :
    ∀ member ∈ settings.written, Taken members member := by
  obtain ⟨first, -, failed⟩ | ⟨-, other, found, taken⟩ := ofMembers_yields members
  · rw [failed] at read
    contradiction
  · obtain rfl := Except.ok.inj (found.symm.trans read)
    exact taken

/-- Settings are read from an object if each known key in it has a value of the kind it expects.
Each of them is then the value of its key or the default, and otherwise the first bad key in
alphabetical order is the error. Nothing else counts: neither the order of the members nor unknown
keys nor what is beside the section. Settings that are written are read as they are, bare or in
their section. -/
theorem ofJson_reads_known_members :
    (∀ members given : List (Text × Json), (members.map Prod.fst).Nodup →
      Source members (.object given) → (given.map Prod.fst).Nodup →
      ((∃ settings, ofJson (.object members) = .ok settings) ↔
        ∀ entry ∈ known, ∀ value, (entry.1.toList, value) ∈ given → entry.2.Admits value) ∧
      (∀ settings, ofJson (.object members) = .ok settings → ∀ member ∈ settings.written,
        member ∈ given ∨ member.1 ∉ given.map Prod.fst ∧ member ∈ default.written) ∧
      (∀ error, ofJson (.object members) = .error error ↔
        known.findSome? (refusalIn? given) = some error) ∧
      ∀ others othersGiven : List (Text × Json), (others.map Prod.fst).Nodup →
        Source others (.object othersGiven) → (othersGiven.map Prod.fst).Nodup →
        (∀ entry ∈ known, ∀ value,
          (entry.1.toList, value) ∈ othersGiven ↔ (entry.1.toList, value) ∈ given) →
        ofJson (.object others) = ofJson (.object members)) ∧
    ∀ settings : Settings,
      (ofJson settings.toJson = .ok settings ↔ settings.problemLimit < 18446744073709551616) ∧
      ∀ members, (members.map Prod.fst).Nodup → (sectionName.toList, settings.toJson) ∈ members →
        (ofJson (.object members) = .ok settings ↔
          settings.problemLimit < 18446744073709551616) := by
  refine ⟨fun members given distinct source unrepeated => ?_, fun settings => ⟨?_, ?_⟩⟩
  · have read : ofJson (.object members) = ofMembers given := ofJson_of_source distinct source
    rw [read]
    refine ⟨?_, fun settings found member listed => ?_, fun error => ofMembers_eq_error_iff, ?_⟩
    · simp only [ofMembers_eq_ok_iff, lastMember?_eq_some_iff unrepeated]
    · exact (taken_iff unrepeated).mp (taken_of_ofMembers found member listed)
    · intro others othersGiven othersDistinct othersSource othersUnrepeated same
      rw [ofJson_of_source othersDistinct othersSource]
      exact ofMembers_congr fun entry listed =>
        lastMember?_congr unrepeated othersUnrepeated (same entry listed)
  · have bare : Source settings.written settings.toJson := .bare (by simp [written, sectionName])
    rw [toJson_eq, ofJson_of_source (nodup_written settings) bare]
    exact ofMembers_written_iff settings
  · intro members distinct listed
    rw [ofJson_of_source distinct (.wrapped listed)]
    exact ofMembers_written_iff settings

/-- A section with a key of its own name, beside a key of another section. -/
theorem ofJson_reads_nested_section :
    (∃ settings, ofJson (.object [("typeChecking".toList, .integer 3),
      (sectionName.toList, .object [(sectionName.toList, .null),
        ("semanticTokens".toList, .bool false)])]) = .ok settings) ∧
    ofJson (.object [("semanticTokens".toList, .bool false)]) =
      ofJson (.object [("typeChecking".toList, .integer 3),
        (sectionName.toList, .object [(sectionName.toList, .null),
          ("semanticTokens".toList, .bool false)])]) := by
  obtain ⟨accepts, -, -, same⟩ := ofJson_reads_known_members.1
    [("typeChecking".toList, .integer 3),
      (sectionName.toList, .object [(sectionName.toList, .null),
        ("semanticTokens".toList, .bool false)])]
    [(sectionName.toList, .null), ("semanticTokens".toList, .bool false)]
    (by simp [sectionName]) (.wrapped (by simp)) (by simp [sectionName])
  constructor
  · refine accepts.mpr fun entry listed value => ?_
    simp only [known, List.mem_cons, List.not_mem_nil, or_false] at listed
    obtain rfl | rfl | rfl | rfl | rfl := listed <;> simp [sectionName]
    rintro rfl
    exact .flag false
  · refine same _ [("semanticTokens".toList, .bool false)] (by simp)
      (.bare (by simp [sectionName])) (by simp) fun entry listed value => ?_
    simp only [known, List.mem_cons, List.not_mem_nil, or_false] at listed
    obtain rfl | rfl | rfl | rfl | rfl := listed <;> simp [sectionName]

end Settings

end Scrapscript
