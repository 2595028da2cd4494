import Kaleidoscope.Sdk.Answers
import Kaleidoscope.Sdk.Native

/-!
# The same answers in both SDKs

A launch descriptor, a profile and the state of an account, from the JSON text on.  Python tells an
integer from other numbers, writes paths in normal form and takes a UUID in any spelling;
TypeScript does none of this.

    parsers_agree_iff    for which texts the two SDKs make the same of each
-/

namespace Kaleidoscope.Sdk

open Unicode (Points)
open JsonReader (ofText JsonNumber Rejection JsonValue nearestDouble)

/-! ## Reading -/

/-- A number that is no `int`. -/
def asFloat : JsonNumber → JsonNumber
  | .finite q => .float q
  | n => n

/-- `json.loads`, with the type of every number. -/
def jsonLoadsTyped (limits : PythonLimits) : JsonReader.Dialect where
  constants := true
  number l :=
    if l.isInteger then
      if 0 < limits.intDigits ∧ limits.intDigits < l.whole.length then .error .tooLong
      else .ok (.finite l.value)
    else .ok (asFloat (nearestDouble l.value))
  depth := some limits.recursion

def loadsText (limits : PythonLimits) (text : Points) : Except Rejection JsonValue :=
  JsonReader.read (jsonLoadsTyped limits) text

def parseText (text : Points) : Except Rejection JsonValue := JsonReader.read jsonParse text

/-- A text that is read and then parsed; a text that cannot be read is refused, with an exception
that not every caller knows. -/
def parsed {α : Type} (refused : Rejection → SdkError) (parse : JsonValue → Parsed α)
    (read : Except Rejection JsonValue) : Parsed α :=
  match read with
  | .ok value => parse value
  | .error rejection => .error (refused rejection)

def unreadable (error : SdkError) : Rejection → SdkError
  | .malformed => error
  | rejection => .uncaught rejection

section

variable (facts : CommandFacts) (table : CharacterTable) (limits : PythonLimits)

/-- `LaunchDescriptor.from_json` -/
def descriptorPython (text : Points) : Parsed LaunchDescriptor :=
  parsed (unreadable (.descriptor "profile launch did not return valid JSON")) (fromMapping facts)
    (loadsText limits text)

/-- `parseLaunchDescriptor(JSON.parse(text))` -/
def descriptorTypescript (text : Points) : Parsed LaunchDescriptor :=
  parsed (unreadable (.descriptor "profile launch did not return valid JSON"))
    (parseLaunchDescriptor facts) (parseText text)

/-- What `load_profile` makes of the output. -/
def profilePython (text : Points) : Parsed Profile :=
  parsed (unreadable (.protocol "manager output was not one JSON value")) profileFromMapping
    (loadsText limits text)

/-- What `loadProfile` makes of the output. -/
def profileTypescript (text : Points) : Parsed Profile :=
  parsed (unreadable (.protocol "profile show did not return one JSON value")) parseProfile
    (parseText text)

/-- What `ManagerAccountClient.status` makes of the output, in Python. -/
def accountPython (text : Points) : Parsed AccountStatus :=
  parsed (unreadable (.protocol "manager account command did not return one JSON value"))
    (statusPython table) (loadsText limits text)

/-- What `ManagerAccountClient.status` makes of the output, in TypeScript. -/
def accountTypescript (text : Points) : Parsed AccountStatus :=
  parsed (unreadable (.protocol "manager account command did not return one JSON value"))
    status (parseText text)

/-! ## Statement -/

/-- Both parsers accept with the same result, or both refuse. -/
def Agree {α : Type} (python typescript : Parsed α) : Prop :=
  ∀ a, python = .ok a ↔ typescript = .ok a

/-- What `json.loads` reads as a descriptor with an integer for its version names its command in
normal form, and `JSON.parse` reads it too; what `JSON.parse` reads as a descriptor, `json.loads`
does, with an integer for its version. -/
def DescriptorPlain (text : Points) : Prop :=
  (∀ command profile, facts.Launchable (pathText command) → isProfileName profile = true →
      loadsText limits text = .ok (descriptorValue command profile) →
      pathText command = command ∧ parseText text = .ok (descriptorValue command profile))
    ∧ ∀ command profile, facts.Launchable command → isProfileName profile = true →
      parseText text = .ok (descriptorValue command profile) →
      loadsText limits text = .ok (descriptorValue command profile)

/-- The same of a profile, whose root is in normal form. -/
def ProfilePlain (text : Points) : Prop :=
  (∀ p : Profile, p.Closed → loadsText limits text = .ok p.value →
      pathText p.root = p.root ∧ parseText text = .ok p.value)
    ∧ ∀ p : Profile, p.Closed → parseText text = .ok p.value →
      pathText p.root = p.root ∧ loadsText limits text = .ok p.value

/-- Identifiers with four hyphens each. -/
def Hyphenated (ids : Option (Points × Points)) : Prop :=
  ∀ pair ∈ ids, isUuid pair.1 = true ∧ isUuid pair.2 = true

/-- The same of the state of an account, whose identifiers have four hyphens each. -/
def StatusPlain (text : Points) : Prop :=
  (∀ state ids stale, (readIds (uuidPython table) ids).isSome → Consistent state ids stale →
      loadsText limits text = .ok (statusValue state ids stale) →
      Hyphenated ids ∧ parseText text = .ok (statusValue state ids stale))
    ∧ ∀ state ids stale, Hyphenated ids → Consistent state ids stale →
      parseText text = .ok (statusValue state ids stale) →
      loadsText limits text = .ok (statusValue state ids stale)

end

/-! ## Lemmas -/

/-- A number of Python as the number of TypeScript. -/
def toDouble : JsonNumber → JsonNumber
  | .finite q => nearestDouble q
  | .float q => .finite q
  | n => n

theorem toDouble_one : toDouble (.finite 1) = .finite 1 := by decide +kernel

theorem nearestDouble_cases (q : ℚ) :
    (∃ r, nearestDouble q = .finite r) ∨ ∃ negative, nearestDouble q = .infinite negative := by
  unfold nearestDouble
  split_ifs
  · exact .inl ⟨0, rfl⟩
  · dsimp only
    split_ifs
    · exact .inr ⟨_, rfl⟩
    · exact .inl ⟨_, rfl⟩
  · dsimp only
    split_ifs
    · exact .inr ⟨_, rfl⟩
    · exact .inl ⟨_, rfl⟩

theorem toDouble_asFloat (q : ℚ) : toDouble (asFloat (nearestDouble q)) = nearestDouble q := by
  rcases nearestDouble_cases q with ⟨r, hr⟩ | ⟨negative, hr⟩
  · rw [hr]
    rfl
  · rw [hr]
    rfl

theorem jsonLoadsTyped_yields (limits : PythonLimits) :
    (jsonLoadsTyped limits).Yields jsonParse toDouble where
  number {l n m} hn hm := by
    obtain rfl : nearestDouble l.value = m := Except.ok.inj hm
    unfold jsonLoadsTyped at hn
    simp only at hn
    split at hn
    · split at hn
      · cases hn
      · cases hn
        rfl
    · cases hn
      exact (toDouble_asFloat l.value).symm
  constants := rfl

/-- What both languages read from one text. -/
theorem read_both {limits : PythonLimits} {text : Points} {v v' : JsonValue}
    (hloads : loadsText limits text = .ok v) (hparse : parseText text = .ok v') :
    v' = v.mapNumbers toDouble :=
  JsonReader.read_yields (jsonLoadsTyped_yields limits) hloads hparse

theorem parsed_eq_ok {α : Type} {refused : Rejection → SdkError} {parse : JsonValue → Parsed α}
    {read : Except Rejection JsonValue} {a : α} :
    parsed refused parse read = .ok a ↔ ∃ v, read = .ok v ∧ parse v = .ok a := by
  unfold parsed
  cases read with
  | ok v =>
    constructor
    · intro h
      exact ⟨v, rfl, h⟩
    · rintro ⟨v', hv, h⟩
      cases hv
      exact h
  | error x =>
    constructor
    · intro h
      cases h
    · rintro ⟨v, hv, -⟩
      cases hv

theorem descriptorValue_fixed (command profile : Points) :
    (descriptorValue command profile).mapNumbers toDouble = descriptorValue command profile := by
  simp [descriptorValue, closedValue, argsValue, expectedTools, JsonValue.mapNumbers,
    JsonValue.mapMembers, JsonValue.mapItems, toDouble_one]

theorem descriptorValue_injective {command profile command' profile' : Points}
    (h : descriptorValue command profile = descriptorValue command' profile') :
    command = command' ∧ profile = profile' := by
  simp [descriptorValue, closedValue, argsValue] at h
  exact ⟨h.2, h.1⟩

theorem closed_injective {command profile command' profile' : Points}
    (h : LaunchDescriptor.closed command profile = .closed command' profile') :
    command = command' ∧ profile = profile' := by
  simpa [LaunchDescriptor.closed] using h

theorem descriptor_agree_iff {facts : CommandFacts} {limits : PythonLimits} {text : Points} :
    Agree (descriptorPython facts limits text) (descriptorTypescript facts text)
      ↔ DescriptorPlain facts limits text := by
  unfold Agree descriptorPython descriptorTypescript
  simp only [parsed_eq_ok, fromMapping_iff, parseLaunchDescriptor_iff]
  constructor
  · intro h
    refine ⟨fun command profile hlaunchable hname hloads => ?_,
      fun command profile hlaunchable hname hparse => ?_⟩
    · obtain ⟨v', hparse, command', profile', -, -, rfl, hclosed⟩ :=
        (h (.closed (pathText command) profile)).mp
          ⟨_, hloads, command, profile, hlaunchable, hname, rfl, rfl⟩
      have hboth := read_both hloads hparse
      rw [descriptorValue_fixed] at hboth
      obtain ⟨rfl, rfl⟩ := descriptorValue_injective hboth
      exact ⟨(closed_injective hclosed).1, hparse⟩
    · obtain ⟨v, hloads, command', profile', -, -, rfl, hclosed⟩ :=
        (h (.closed command profile)).mpr
          ⟨_, hparse, command, profile, hlaunchable, hname, rfl, rfl⟩
      have hboth := read_both hloads hparse
      rw [descriptorValue_fixed] at hboth
      rw [hboth]
      exact hloads
  · rintro ⟨hpython, htypescript⟩ d
    constructor
    · rintro ⟨v, hloads, command, profile, hlaunchable, hname, rfl, rfl⟩
      obtain ⟨hnormal, hparse⟩ := hpython command profile hlaunchable hname hloads
      rw [hnormal] at hlaunchable ⊢
      exact ⟨_, hparse, command, profile, hlaunchable, hname, rfl, rfl⟩
    · rintro ⟨v, hparse, command, profile, hlaunchable, hname, rfl, rfl⟩
      have hloads := htypescript command profile hlaunchable hname hparse
      refine ⟨_, hloads, command, profile, ?_, hname, rfl, ?_⟩
      · rw [hlaunchable.normal]
        exact hlaunchable
      · rw [hlaunchable.normal]

theorem Profile.value_fixed (p : Profile) : p.value.mapNumbers toDouble = p.value := by
  simp [Profile.value, JsonValue.mapNumbers, JsonValue.mapMembers, toDouble_one]

theorem Profile.value_injective {p q : Profile} (hp : p.Closed) (hq : q.Closed)
    (h : p.value = q.value) : p = q := by
  obtain ⟨version, name, root, workspaceId, principalId, journal, durability⟩ := p
  obtain ⟨version', name', root', workspaceId', principalId', journal', durability'⟩ := q
  obtain rfl : version = 1 := hp.version
  obtain rfl : version' = 1 := hq.version
  simp [Profile.value] at h
  simp [h]

theorem profile_agree_iff {limits : PythonLimits} {text : Points} :
    Agree (profilePython limits text) (profileTypescript text) ↔ ProfilePlain limits text := by
  unfold Agree profilePython profileTypescript profileFromMapping parseProfile
  simp only [parsed_eq_ok, parseProfile_iff]
  constructor
  · intro h
    refine ⟨fun p hp hloads => ?_, fun p hp hparse => ?_⟩
    · obtain ⟨v', hparse, q, hq, rfl, hsame⟩ :=
        (h { p with root := pathText p.root }).mp ⟨_, hloads, p, hp, rfl, rfl⟩
      have hboth := read_both hloads hparse
      rw [Profile.value_fixed] at hboth
      obtain rfl := Profile.value_injective hq hp hboth
      exact ⟨congrArg Profile.root hsame, hparse⟩
    · obtain ⟨v, hloads, q, hq, rfl, hsame⟩ := (h p).mpr ⟨_, hparse, p, hp, rfl, rfl⟩
      have hboth := read_both hloads hparse
      rw [Profile.value_fixed] at hboth
      obtain rfl := Profile.value_injective hp hq hboth
      exact ⟨(congrArg Profile.root hsame).symm, hloads⟩
  · rintro ⟨hpython, htypescript⟩ d
    constructor
    · rintro ⟨v, hloads, p, hp, rfl, rfl⟩
      obtain ⟨hnormal, hparse⟩ := hpython p hp hloads
      exact ⟨_, hparse, p, hp, rfl, by rw [hnormal]; rfl⟩
    · rintro ⟨v, hparse, p, hp, rfl, rfl⟩
      obtain ⟨hnormal, hloads⟩ := htypescript p hp hparse
      exact ⟨_, hloads, p, hp, rfl, by rw [hnormal]; rfl⟩

theorem statusValue_fixed (state : Points) (ids : Option (Points × Points)) (stale : Bool) :
    (statusValue state ids stale).mapNumbers toDouble = statusValue state ids stale := by
  cases ids with
  | none => simp [statusValue, idValues, JsonValue.mapNumbers, JsonValue.mapMembers, toDouble_one]
  | some pair => simp [statusValue, idValues, JsonValue.mapNumbers, JsonValue.mapMembers, toDouble_one]

theorem statusValue_injective {state state' : Points} {ids ids' : Option (Points × Points)}
    {stale stale' : Bool} (h : statusValue state ids stale = statusValue state' ids' stale') :
    state = state' ∧ ids = ids' ∧ stale = stale' := by
  cases ids with
  | none =>
    cases ids' with
    | none =>
      simp [statusValue, idValues] at h
      exact ⟨h.2, rfl, h.1⟩
    | some pair => simp [statusValue, idValues] at h
  | some pair =>
    cases ids' with
    | none => simp [statusValue, idValues] at h
    | some pair' =>
      simp [statusValue, idValues] at h
      exact ⟨h.2.2.2, congrArg some (Prod.ext h.1 h.2.1), h.2.2.1⟩

/-- The identifiers that TypeScript takes. -/
theorem readIds_hyphenated {ids : Option (Points × Points)} :
    (∃ read, readIds uuid ids = some read) ↔ Hyphenated ids := by
  unfold Hyphenated
  cases ids with
  | none => simp [readIds]
  | some pair =>
    obtain ⟨account, device⟩ := pair
    by_cases haccount : isUuid account = true
    · by_cases hdevice : isUuid device = true
      · simp [readIds, uuid, haccount, hdevice]
      · simp [readIds, uuid, haccount, hdevice]
    · simp [readIds, uuid, haccount]

theorem readIds_python {table : CharacterTable} {ids : Option (Points × Points)}
    (h : Hyphenated ids) : readIds (uuidPython table) ids = readIds uuid ids := by
  cases ids with
  | none => rfl
  | some pair =>
    obtain ⟨haccount, hdevice⟩ := h pair rfl
    simp [readIds, uuidPython_of_shaped haccount, uuidPython_of_shaped hdevice, uuid, haccount,
      hdevice]

/-- Only whether there are identifiers matters to a state. -/
theorem Consistent.read {uuid : Points → Option Points} {state : Points}
    {ids read : Option (Points × Points)} {stale : Bool} (hread : readIds uuid ids = some read) :
    Consistent state read stale ↔ Consistent state ids stale := by
  have hnone : read = none ↔ ids = none := by
    unfold readIds at hread
    split at hread
    next =>
      cases hread
      exact ⟨fun _ => rfl, fun _ => rfl⟩
    next =>
      split at hread
      next =>
        cases hread
        simp
      next => cases hread
  unfold Consistent
  rw [ne_eq, ne_eq, hnone]

theorem statusPython_iff {table : CharacterTable} {value : JsonValue} {answer : AccountStatus} :
    statusPython table value = .ok answer
      ↔ ∃ state raw ids stale, readIds (uuidPython table) raw = some ids
        ∧ Consistent state ids stale ∧ value = statusValue state raw stale
        ∧ answer = ⟨1, state, ids.map Prod.fst, ids.map Prod.snd, stale⟩ := by
  constructor
  · intro h
    obtain ⟨_, -, h⟩ := except_bind_eq_ok.mp h
    exact parseStatus_iff.mp h
  · intro h
    have hstatus := @parseStatus_iff "manager status has an unknown state" |>.mpr h
    obtain ⟨state, raw, ids, stale, -, -, rfl, -⟩ := h
    exact except_bind_eq_ok.mpr ⟨(), rfl, hstatus⟩

theorem status_iff {value : JsonValue} {answer : AccountStatus} :
    status value = .ok answer
      ↔ ∃ state raw ids stale, readIds uuid raw = some ids ∧ Consistent state ids stale
        ∧ value = statusValue state raw stale
        ∧ answer = ⟨1, state, ids.map Prod.fst, ids.map Prod.snd, stale⟩ := by
  constructor
  · intro h
    obtain ⟨_, -, h⟩ := except_bind_eq_ok.mp h
    exact parseStatus_iff.mp h
  · intro h
    have hstatus := @parseStatus_iff "manager status differs from the closed v1 shape" |>.mpr h
    obtain ⟨state, raw, ids, stale, -, -, rfl, -⟩ := h
    exact except_bind_eq_ok.mpr ⟨(), rfl, hstatus⟩

theorem status_agree_iff {table : CharacterTable} {limits : PythonLimits} {text : Points} :
    Agree (accountPython table limits text) (accountTypescript text)
      ↔ StatusPlain table limits text := by
  unfold Agree accountPython accountTypescript
  simp only [parsed_eq_ok, statusPython_iff, status_iff]
  constructor
  · intro h
    refine ⟨fun state raw stale hread hconsistent hloads => ?_,
      fun state raw stale hhyphenated hconsistent hparse => ?_⟩
    · obtain ⟨ids, hids⟩ := Option.isSome_iff_exists.mp hread
      obtain ⟨v', hparse, state', raw', ids', stale', hids', -, rfl, -⟩ := (h _).mp
        ⟨_, hloads, state, raw, ids, stale, hids, (Consistent.read hids).mpr hconsistent, rfl, rfl⟩
      have hboth := read_both hloads hparse
      rw [statusValue_fixed] at hboth
      obtain ⟨rfl, rfl, rfl⟩ := statusValue_injective hboth
      exact ⟨readIds_hyphenated.mp ⟨ids', hids'⟩, hparse⟩
    · obtain ⟨ids, hids⟩ := readIds_hyphenated.mpr hhyphenated
      obtain ⟨v, hloads, state', raw', ids', stale', -, -, rfl, -⟩ := (h _).mpr
        ⟨_, hparse, state, raw, ids, stale, hids, (Consistent.read hids).mpr hconsistent, rfl, rfl⟩
      have hboth := read_both hloads hparse
      rw [statusValue_fixed] at hboth
      obtain ⟨rfl, rfl, rfl⟩ := statusValue_injective hboth
      exact hloads
  · rintro ⟨hpython, htypescript⟩ answer
    constructor
    · rintro ⟨v, hloads, state, raw, ids, stale, hids, hconsistent, rfl, rfl⟩
      obtain ⟨hhyphenated, hparse⟩ := hpython state raw stale (by rw [hids]; rfl)
        ((Consistent.read hids).mp hconsistent) hloads
      rw [readIds_python hhyphenated] at hids
      exact ⟨_, hparse, state, raw, ids, stale, hids, hconsistent, rfl, rfl⟩
    · rintro ⟨v, hparse, state, raw, ids, stale, hids, hconsistent, rfl, rfl⟩
      have hhyphenated := readIds_hyphenated.mp ⟨ids, hids⟩
      have hloads := htypescript state raw stale hhyphenated
        ((Consistent.read hids).mp hconsistent) hparse
      rw [← readIds_python hhyphenated] at hids
      exact ⟨_, hloads, state, raw, ids, stale, hids, hconsistent, rfl, rfl⟩

/-! ## Top theorem -/

theorem parsers_agree_iff (facts : CommandFacts) (table : CharacterTable) (limits : PythonLimits)
    (text : Points) :
    (Agree (descriptorPython facts limits text) (descriptorTypescript facts text)
        ↔ DescriptorPlain facts limits text)
      ∧ (Agree (profilePython limits text) (profileTypescript text) ↔ ProfilePlain limits text)
      ∧ (Agree (accountPython table limits text) (accountTypescript text)
        ↔ StatusPlain table limits text) :=
  ⟨descriptor_agree_iff, profile_agree_iff, status_agree_iff⟩

/-- The limits of a Python process, but for what its stack already holds. -/
def usualLimits : PythonLimits := ⟨1000, 4300⟩

/-- A profile of version `1.0`. -/
def decimalVersion : Points := ofText
  "\x7b\"version\":1.0,\"name\":\"a\",\"root\":\"/r\",\"workspace_id\":\"w\",\"principal_id\":\"p\",\"journal\":\"j\",\"durability\":\"d\"\x7d"

/-- A profile whose root has two slashes in a row. -/
def doubledSlash : Points := ofText
  "\x7b\"version\":1,\"name\":\"a\",\"root\":\"/r//s\",\"workspace_id\":\"w\",\"principal_id\":\"p\",\"journal\":\"j\",\"durability\":\"d\"\x7d"

/-- The state of an account, with identifiers that have no hyphens. -/
def bareIdentifiers : Points := ofText
  "\x7b\"version\":1,\"state\":\"online\",\"account_id\":\"00000000000000000000000000000001\",\"device_id\":\"00000000000000000000000000000002\",\"stale\":false\x7d"

/-- A character database without characters beyond ASCII. -/
def asciiTable : CharacterTable := ⟨fun _ => false, fun _ => none⟩

/-- TypeScript alone takes a version `1.0`, the two give one root two spellings, and Python alone
takes identifiers without hyphens. -/
theorem parsers_disagree :
    ¬ Agree (profilePython usualLimits decimalVersion) (profileTypescript decimalVersion)
      ∧ ¬ Agree (profilePython usualLimits doubledSlash) (profileTypescript doubledSlash)
      ∧ ¬ Agree (accountPython asciiTable usualLimits bareIdentifiers)
        (accountTypescript bareIdentifiers) := by
  refine ⟨fun h => ?_, fun h => ?_, fun h => ?_⟩
  · have htypescript : profileTypescript decimalVersion
        = .ok ⟨1, [0x61], ofText "/r", [0x77], [0x70], [0x6A], [0x64]⟩ := by decide +kernel
    have hpython := (h _).mpr htypescript
    revert hpython
    decide +kernel
  · have htypescript : profileTypescript doubledSlash
        = .ok ⟨1, [0x61], ofText "/r//s", [0x77], [0x70], [0x6A], [0x64]⟩ := by decide +kernel
    have hpython := (h _).mpr htypescript
    revert hpython
    decide +kernel
  · have hpython : accountPython asciiTable usualLimits bareIdentifiers
        = .ok ⟨1, online, some (ofText "00000000-0000-0000-0000-000000000001"),
            some (ofText "00000000-0000-0000-0000-000000000002"), false⟩ := by decide +kernel
    have htypescript := (h _).mp hpython
    revert htypescript
    decide +kernel

end Kaleidoscope.Sdk
