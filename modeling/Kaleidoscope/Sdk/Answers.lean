import Kaleidoscope.Sdk.Descriptor
import Kaleidoscope.Sdk.Uuid

/-!
# Profiles and account states

The closed shape of two answers, and the parsers of both languages, from the JSON value on.

    parseProfile_iff    which values are a profile
    parseStatus_iff     which values are the state of an account
-/

namespace Kaleidoscope.Sdk

open Unicode (Points)
open JsonReader (ofText JsonValue)

/-! ## Profiles -/

structure Profile where
  version : Nat
  name : Points
  root : Points
  workspaceId : Points
  principalId : Points
  journal : Points
  durability : Points
  deriving DecidableEq

def profileKeys : List Points :=
  [ofText "durability", ofText "journal", ofText "name", ofText "principal_id", ofText "root",
    ofText "version", ofText "workspace_id"]

/-- A field with a text that is not empty. -/
def identityField (invalid : String → String) (key : String) (value : JsonValue) : Parsed Points :=
  match field key value with
  | .string (c :: rest) => .ok (c :: rest)
  | _ => .error (.descriptor (invalid key))

/-- The checks of both languages; one keeps the root as it is, the other in normal form. -/
def parseProfileWith (version : String) (invalid : String → String) (render : Points → Points)
    (value : JsonValue) : Parsed Profile := do
  rejectIf (keys value ≠ some profileKeys)
    (.descriptor "profile differs from the closed v1 shape")
  rejectIf (!isOne (field "version" value)) (.descriptor version)
  let name ← validateProfileName (field "name" value)
  let root ← identityField invalid "root" value
  let workspaceId ← identityField invalid "workspace_id" value
  let principalId ← identityField invalid "principal_id" value
  let journal ← identityField invalid "journal" value
  let durability ← identityField invalid "durability" value
  rejectIf (!isAbsolute root) (.descriptor "profile root must be absolute")
  return ⟨1, name, render root, workspaceId, principalId, journal, durability⟩

/-- `Profile.from_mapping` -/
def profileFromMapping : JsonValue → Parsed Profile :=
  parseProfileWith "profile differs from the closed v1 shape"
    (fun _ => "profile contains an invalid identity field") pathText

/-- `parseProfile` -/
def parseProfile : JsonValue → Parsed Profile :=
  parseProfileWith "profile version must be exactly 1"
    (fun field => "profile " ++ field ++ " is invalid") id

/-! ## Accounts -/

structure AccountStatus where
  version : Nat
  state : Points
  accountId : Option Points
  deviceId : Option Points
  stale : Bool
  deriving DecidableEq

def statusKeys : List Points :=
  [ofText "account_id", ofText "device_id", ofText "stale", ofText "state", ofText "version"]

def signedOut : Points := ofText "signed_out"
def online : Points := ofText "online"
def offlineStale : Points := ofText "offline_stale"
def revoked : Points := ofText "revoked"

/-- The identifiers of the account and of the device: both, or neither. -/
def parseIds (uuid : Points → Option Points) (account device : JsonValue) :
    Parsed (Option (Points × Points)) :=
  match account, device with
  | .null, .null => .ok none
  | .null, _ => .error (.protocol "manager status has a partial account identity")
  | _, .null => .error (.protocol "manager status has a partial account identity")
  | .string account, .string device =>
    match uuid account, uuid device with
    | some account, some device => .ok (some (account, device))
    | _, _ => .error (.protocol "manager status has an invalid account identity")
  | _, _ => .error (.protocol "manager status has an invalid account identity")

/-- What a state says of the identifiers and of their age. -/
def checkState (state : Points) (ids : Option (Points × Points)) (stale : Bool) : Parsed Unit := do
  rejectIf ((state = signedOut ∨ state = revoked) ∧ (ids.isSome ∨ stale))
    (.protocol "signed-out manager status retained account state")
  rejectIf (state = online ∧ (ids.isNone ∨ stale))
    (.protocol "online manager status is internally inconsistent")
  rejectIf (state = offlineStale ∧ (ids.isNone ∨ !stale))
    (.protocol "offline manager status is internally inconsistent")

def asBool : JsonValue → Option Bool
  | .bool b => some b
  | _ => none

theorem lawful_points : LawfulBEq Points := inferInstance

attribute [local instance] lawful_points

/-- The checks of both languages. -/
def parseStatus (unknown : String) (uuid : Points → Option Points) (value : JsonValue) :
    Parsed AccountStatus := do
  rejectIf (keys value ≠ some statusKeys ∨ !isOne (field "version" value))
    (.protocol "manager status differs from the closed v1 shape")
  match asBool (field "stale" value), asText (field "state" value) with
  | some stale, some state => do
    rejectIf (state ∉ [signedOut, online, offlineStale, revoked]) (.protocol unknown)
    let ids ← parseIds uuid (field "account_id" value) (field "device_id" value)
    checkState state ids stale
    return ⟨1, state, ids.map Prod.fst, ids.map Prod.snd, stale⟩
  | some _, none => .error (.protocol unknown)
  | none, _ => .error (.protocol "manager status differs from the closed v1 shape")

def isInteger : JsonValue → Bool
  | .number (.finite _) => true
  | _ => false

/-- What `ManagerAccountClient.invoke` lets pass, in Python. -/
def checkAnswerPython (value : JsonValue) : Parsed Unit := do
  rejectIf (keys value = none ∨ !isInteger (field "version" value))
    (.protocol "manager account command did not return a versioned object")
  rejectIf (!isOne (field "version" value))
    (.protocol "manager account command returned an unsupported version")

/-- What `ManagerAccountClient.invoke` lets pass, in TypeScript. -/
def checkAnswer (value : JsonValue) : Parsed Unit :=
  rejectIf (keys value = none ∨ !isOne (field "version" value))
    (.protocol "manager account command did not return a v1 object")

/-- `ManagerAccountClient.status`, in Python -/
def statusPython (table : CharacterTable) (value : JsonValue) : Parsed AccountStatus := do
  checkAnswerPython value
  parseStatus "manager status has an unknown state" (uuidPython table) value

/-- `ManagerAccountClient.status`, in TypeScript -/
def status (value : JsonValue) : Parsed AccountStatus := do
  checkAnswer value
  parseStatus "manager status differs from the closed v1 shape" uuid value

/-! ## Statement -/

namespace Profile

def value (p : Profile) : JsonValue :=
  .object [
    (ofText "durability", .string p.durability),
    (ofText "journal", .string p.journal),
    (ofText "name", .string p.name),
    (ofText "principal_id", .string p.principalId),
    (ofText "root", .string p.root),
    (ofText "version", .number (.finite 1)),
    (ofText "workspace_id", .string p.workspaceId)]

/-- A profile that can be told. -/
structure Closed (p : Profile) : Prop where
  version : p.version = 1
  name : isProfileName p.name = true
  root : isAbsolute p.root = true
  workspaceId : p.workspaceId ≠ []
  principalId : p.principalId ≠ []
  journal : p.journal ≠ []
  durability : p.durability ≠ []

end Profile

/-- The value of two identifiers, or of none. -/
def idValues : Option (Points × Points) → JsonValue × JsonValue
  | none => (.null, .null)
  | some (account, device) => (.string account, .string device)

def statusValue (state : Points) (ids : Option (Points × Points)) (stale : Bool) : JsonValue :=
  .object [
    (ofText "account_id", (idValues ids).1),
    (ofText "device_id", (idValues ids).2),
    (ofText "stale", .bool stale),
    (ofText "state", .string state),
    (ofText "version", .number (.finite 1))]

/-- The four states, each with what it says of the identifiers and of their age. -/
def Consistent (state : Points) (ids : Option (Points × Points)) (stale : Bool) : Prop :=
  ((state = signedOut ∨ state = revoked) ∧ ids = none ∧ stale = false)
    ∨ (state = online ∧ ids ≠ none ∧ stale = false)
    ∨ (state = offlineStale ∧ ids ≠ none ∧ stale = true)

/-- Both identifiers as one language reads them. -/
def readIds (uuid : Points → Option Points) :
    Option (Points × Points) → Option (Option (Points × Points))
  | none => some none
  | some (account, device) =>
    match uuid account, uuid device with
    | some account, some device => some (some (account, device))
    | _, _ => none

/-! ## Lemmas -/

theorem identityField_iff {invalid : String → String} {key : String} {value : JsonValue}
    {text : Points} :
    identityField invalid key value = .ok text ↔ text ≠ [] ∧ field key value = .string text := by
  unfold identityField
  constructor
  · intro h
    split at h
    next c rest heq =>
      cases h
      exact ⟨by simp, heq⟩
    next => cases h
  · rintro ⟨hne, heq⟩
    obtain ⟨c, rest, rfl⟩ := List.exists_cons_of_ne_nil hne
    rw [heq]

theorem keys_profile {value : JsonValue} (h : keys value = some profileKeys) :
    value = .object [
      (ofText "durability", field "durability" value),
      (ofText "journal", field "journal" value),
      (ofText "name", field "name" value),
      (ofText "principal_id", field "principal_id" value),
      (ofText "root", field "root" value),
      (ofText "version", field "version" value),
      (ofText "workspace_id", field "workspace_id" value)] := by
  unfold keys at h
  split at h
  next members =>
    obtain ⟨⟨_, durability⟩, _, rfl, rfl, h₁⟩ := List.map_eq_cons_iff.mp (Option.some.inj h)
    obtain ⟨⟨_, journal⟩, _, rfl, rfl, h₂⟩ := List.map_eq_cons_iff.mp h₁
    obtain ⟨⟨_, name⟩, _, rfl, rfl, h₃⟩ := List.map_eq_cons_iff.mp h₂
    obtain ⟨⟨_, principal⟩, _, rfl, rfl, h₄⟩ := List.map_eq_cons_iff.mp h₃
    obtain ⟨⟨_, root⟩, _, rfl, rfl, h₅⟩ := List.map_eq_cons_iff.mp h₄
    obtain ⟨⟨_, version⟩, _, rfl, rfl, h₆⟩ := List.map_eq_cons_iff.mp h₅
    obtain ⟨⟨_, workspace⟩, _, rfl, rfl, h₇⟩ := List.map_eq_cons_iff.mp h₆
    obtain rfl := List.map_eq_nil_iff.mp h₇
    rfl
  next => cases h

theorem parseProfile_iff {version : String} {invalid : String → String}
    {render : Points → Points} {value : JsonValue} {p : Profile} :
    parseProfileWith version invalid render value = .ok p
      ↔ ∃ raw : Profile, raw.Closed ∧ value = raw.value ∧ p = { raw with root := render raw.root } := by
  constructor
  · intro h
    obtain ⟨_, hkeys, h⟩ := except_bind_eq_ok.mp h
    obtain ⟨_, hversion, h⟩ := except_bind_eq_ok.mp h
    obtain ⟨name, hname, h⟩ := except_bind_eq_ok.mp h
    obtain ⟨root, hroot, h⟩ := except_bind_eq_ok.mp h
    obtain ⟨workspaceId, hworkspace, h⟩ := except_bind_eq_ok.mp h
    obtain ⟨principalId, hprincipal, h⟩ := except_bind_eq_ok.mp h
    obtain ⟨journal, hjournal, h⟩ := except_bind_eq_ok.mp h
    obtain ⟨durability, hdurability, h⟩ := except_bind_eq_ok.mp h
    obtain ⟨_, habsolute, h⟩ := except_bind_eq_ok.mp h
    cases h
    obtain ⟨hname, hnameValue⟩ := validateProfileName_iff.mp hname
    obtain ⟨-, hroot⟩ := identityField_iff.mp hroot
    obtain ⟨hworkspace, hworkspaceValue⟩ := identityField_iff.mp hworkspace
    obtain ⟨hprincipal, hprincipalValue⟩ := identityField_iff.mp hprincipal
    obtain ⟨hjournal, hjournalValue⟩ := identityField_iff.mp hjournal
    obtain ⟨hdurability, hdurabilityValue⟩ := identityField_iff.mp hdurability
    refine ⟨⟨1, name, root, workspaceId, principalId, journal, durability⟩,
      ⟨rfl, hname, require_iff.mp habsolute, hworkspace, hprincipal, hjournal, hdurability⟩,
      ?_, rfl⟩
    rw [keys_profile (not_not.mp (rejectIf_eq_ok.mp hkeys)), isOne_iff.mp (require_iff.mp hversion),
      hnameValue, hroot, hworkspaceValue, hprincipalValue, hjournalValue, hdurabilityValue]
    rfl
  · rintro ⟨raw, hraw, rfl, rfl⟩
    have hroot : raw.root ≠ [] := fun hnil => by
      have := hraw.root
      rw [hnil] at this
      cases this
    unfold parseProfileWith
    refine except_bind_eq_ok.mpr ⟨(), rejectIf_eq_ok.mpr (not_not.mpr rfl), ?_⟩
    refine except_bind_eq_ok.mpr ⟨(), require_iff.mpr (isOne_iff.mpr rfl), ?_⟩
    refine except_bind_eq_ok.mpr ⟨raw.name, validateProfileName_iff.mpr ⟨hraw.name, rfl⟩, ?_⟩
    refine except_bind_eq_ok.mpr ⟨raw.root, identityField_iff.mpr ⟨hroot, rfl⟩, ?_⟩
    refine except_bind_eq_ok.mpr
      ⟨raw.workspaceId, identityField_iff.mpr ⟨hraw.workspaceId, rfl⟩, ?_⟩
    refine except_bind_eq_ok.mpr
      ⟨raw.principalId, identityField_iff.mpr ⟨hraw.principalId, rfl⟩, ?_⟩
    refine except_bind_eq_ok.mpr ⟨raw.journal, identityField_iff.mpr ⟨hraw.journal, rfl⟩, ?_⟩
    refine except_bind_eq_ok.mpr
      ⟨raw.durability, identityField_iff.mpr ⟨hraw.durability, rfl⟩, ?_⟩
    refine except_bind_eq_ok.mpr ⟨(), require_iff.mpr hraw.root, ?_⟩
    rw [← hraw.version]
    rfl

theorem keys_status {value : JsonValue} (h : keys value = some statusKeys) :
    value = .object [
      (ofText "account_id", field "account_id" value),
      (ofText "device_id", field "device_id" value),
      (ofText "stale", field "stale" value),
      (ofText "state", field "state" value),
      (ofText "version", field "version" value)] := by
  unfold keys at h
  split at h
  next members =>
    obtain ⟨⟨_, account⟩, _, rfl, rfl, h₁⟩ := List.map_eq_cons_iff.mp (Option.some.inj h)
    obtain ⟨⟨_, device⟩, _, rfl, rfl, h₂⟩ := List.map_eq_cons_iff.mp h₁
    obtain ⟨⟨_, stale⟩, _, rfl, rfl, h₃⟩ := List.map_eq_cons_iff.mp h₂
    obtain ⟨⟨_, state⟩, _, rfl, rfl, h₄⟩ := List.map_eq_cons_iff.mp h₃
    obtain ⟨⟨_, version⟩, _, rfl, rfl, h₅⟩ := List.map_eq_cons_iff.mp h₄
    obtain rfl := List.map_eq_nil_iff.mp h₅
    rfl
  next => cases h

theorem asBool_eq {value : JsonValue} {b : Bool} (h : asBool value = some b) : value = .bool b := by
  unfold asBool at h
  split at h
  next =>
    cases h
    rfl
  next => cases h

theorem parseIds_iff {uuid : Points → Option Points} {account device : JsonValue}
    {ids : Option (Points × Points)} :
    parseIds uuid account device = .ok ids
      ↔ ∃ raw, readIds uuid raw = some ids ∧ (account, device) = idValues raw := by
  constructor
  · intro h
    unfold parseIds at h
    split at h
    next =>
      cases h
      exact ⟨none, rfl, rfl⟩
    next => cases h
    next => cases h
    next _ _ account device =>
      split at h
      next accountId deviceId haccount hdevice =>
        cases h
        refine ⟨some (account, device), ?_, rfl⟩
        simp only [readIds, haccount, hdevice]
      next => cases h
    next => cases h
  · rintro ⟨raw, hraw, hvalues⟩
    cases raw with
    | none =>
      cases hvalues
      cases hraw
      rfl
    | some pair =>
      obtain ⟨account, device⟩ := pair
      cases hvalues
      unfold readIds at hraw
      simp only at hraw
      split at hraw
      next accountId deviceId haccount hdevice =>
        cases hraw
        simp only [parseIds, haccount, hdevice]
      next => cases hraw

theorem states_distinct : signedOut ≠ online ∧ signedOut ≠ offlineStale ∧ revoked ≠ online
    ∧ revoked ≠ offlineStale ∧ online ≠ offlineStale := by decide

theorem checkState_iff {state : Points} {ids : Option (Points × Points)} {stale : Bool} :
    state ∈ [signedOut, online, offlineStale, revoked] ∧ checkState state ids stale = .ok ()
      ↔ Consistent state ids stale := by
  unfold Consistent
  constructor
  · rintro ⟨hstate, h⟩
    obtain ⟨_, hout, h⟩ := except_bind_eq_ok.mp h
    obtain ⟨_, hon, hoff⟩ := except_bind_eq_ok.mp h
    have hout := rejectIf_eq_ok.mp hout
    have hon := rejectIf_eq_ok.mp hon
    have hoff := rejectIf_eq_ok.mp hoff
    simp only [List.mem_cons, List.not_mem_nil, or_false] at hstate
    rcases hstate with rfl | rfl | rfl | rfl
    · cases ids <;> cases stale <;> simp_all
    · cases ids <;> cases stale <;> simp_all
    · cases ids <;> cases stale <;> simp_all
    · cases ids <;> cases stale <;> simp_all
  · obtain ⟨h₁, h₂, h₃, h₄, h₅⟩ := states_distinct
    have hpass : ∀ (a b c : Prop) [Decidable a] [Decidable b] [Decidable c] (x y z : SdkError),
        ¬ a → ¬ b → ¬ c →
        (rejectIf a x >>= fun _ => rejectIf b y >>= fun _ => rejectIf c z) = .ok () := by
      intro a b c _ _ _ x y z ha hb hc
      exact except_bind_eq_ok.mpr ⟨(), rejectIf_eq_ok.mpr ha,
        except_bind_eq_ok.mpr ⟨(), rejectIf_eq_ok.mpr hb, rejectIf_eq_ok.mpr hc⟩⟩
    rintro (⟨rfl | rfl, rfl, rfl⟩ | ⟨rfl, hids, rfl⟩ | ⟨rfl, hids, rfl⟩)
    · exact ⟨by simp, hpass _ _ _ _ _ _ (by simp) (by simp [h₁]) (by simp [h₂])⟩
    · exact ⟨by simp, hpass _ _ _ _ _ _ (by simp) (by simp [h₃]) (by simp [h₄])⟩
    · exact ⟨by simp, hpass _ _ _ _ _ _ (by simp [h₁.symm, h₃.symm]) (by simp [hids])
        (by simp [h₅])⟩
    · exact ⟨by simp, hpass _ _ _ _ _ _ (by simp [h₂.symm, h₄.symm]) (by simp [h₅.symm])
        (by simp [hids])⟩

theorem parseStatus_iff {unknown : String} {uuid : Points → Option Points} {value : JsonValue}
    {answer : AccountStatus} :
    parseStatus unknown uuid value = .ok answer
      ↔ ∃ state raw ids stale, readIds uuid raw = some ids ∧ Consistent state ids stale
        ∧ value = statusValue state raw stale
        ∧ answer = ⟨1, state, ids.map Prod.fst, ids.map Prod.snd, stale⟩ := by
  constructor
  · intro h
    obtain ⟨_, hkeys, h⟩ := except_bind_eq_ok.mp h
    obtain ⟨hkeys, hversion⟩ := not_or.mp (rejectIf_eq_ok.mp hkeys)
    have hone : field "version" value = .number (.finite 1) := isOne_iff.mp (by simpa using hversion)
    split at h
    next stale state hstale hstate =>
      obtain ⟨_, hmem, h⟩ := except_bind_eq_ok.mp h
      obtain ⟨ids, hids, h⟩ := except_bind_eq_ok.mp h
      obtain ⟨_, hcheck, h⟩ := except_bind_eq_ok.mp h
      cases h
      obtain ⟨raw, hraw, hvalues⟩ := parseIds_iff.mp hids
      have hconsistent := checkState_iff.mp ⟨not_not.mp (rejectIf_eq_ok.mp hmem), hcheck⟩
      refine ⟨state, raw, ids, stale, hraw, hconsistent, ?_, rfl⟩
      rw [keys_status (not_not.mp hkeys), hone, asBool_eq hstale, asText_eq hstate,
        (Prod.mk.inj hvalues).1, (Prod.mk.inj hvalues).2]
      rfl
    next => cases h
    next => cases h
  · rintro ⟨state, raw, ids, stale, hraw, hconsistent, rfl, rfl⟩
    obtain ⟨hmem, hcheck⟩ := checkState_iff.mpr hconsistent
    unfold parseStatus
    have hone : isOne (field "version" (statusValue state raw stale)) = true := isOne_iff.mpr rfl
    refine except_bind_eq_ok.mpr ⟨(), rejectIf_eq_ok.mpr ?_, ?_⟩
    · rintro (hkeys | hversion)
      · exact hkeys rfl
      · rw [hone] at hversion
        cases hversion
    · show (rejectIf _ _ >>= fun _ => parseIds uuid (idValues raw).1 (idValues raw).2 >>= fun ids =>
        checkState state ids stale >>= fun _ => _) = _
      refine except_bind_eq_ok.mpr ⟨(), rejectIf_eq_ok.mpr (not_not.mpr hmem), ?_⟩
      refine except_bind_eq_ok.mpr ⟨ids, parseIds_iff.mpr ⟨raw, hraw, rfl⟩, ?_⟩
      exact except_bind_eq_ok.mpr ⟨(), hcheck, rfl⟩

end Kaleidoscope.Sdk
