import Mathlib.Data.Nat.Digits.Defs
import Kaleidoscope.Account.Usable

/-!
# Reading an endpoint

    parse_iff        an endpoint is read from its method and its path, in which the identifier may
                     be spelled in every way that the `uuid` crate reads
    readUuid_show    the crate reads the identifiers that it writes
-/

namespace Kaleidoscope.Account

/-! ## Spellings -/

/-- The paths of an endpoint: where an identifier stands, any of its spellings. -/
def AccountEndpoint.Spells (crates : External) (path : Text) : AccountEndpoint → Prop
  | .unlinkExternalIdentity id =>
    ∃ spelling, path = "/v1/external-identities/".toList ++ spelling
      ∧ crates.parseUuid spelling = some id
  | .revokeDevice id =>
    ∃ spelling, path = "/v1/devices/".toList ++ spelling ++ "/revoke".toList
      ∧ crates.parseUuid spelling = some id
  | endpoint => path = endpoint.path crates

variable {crates : External}

theorem mem_fixed {endpoint : AccountEndpoint} {path : Text}
    (h : endpoint ∈ AccountEndpoint.fixed) :
    endpoint.Spells crates path ↔ path = endpoint.path crates := by
  cases endpoint with
  | unlinkExternalIdentity id => exact absurd h (by simp [AccountEndpoint.fixed])
  | revokeDevice id => exact absurd h (by simp [AccountEndpoint.fixed])
  | _ => exact Iff.rfl

/-- No fixed path of a request to delete, and none below the devices of a request to post. -/
theorem find_fixed_delete (path : Text) :
    AccountEndpoint.fixed.find? (fun endpoint => endpoint.method = HttpMethod.delete
      ∧ endpoint.path crates = path) = none := by
  refine List.find?_eq_none.mpr fun endpoint hmem hfound => ?_
  have hmethod := (of_decide_eq_true hfound).1
  have hall : ∀ endpoint ∈ AccountEndpoint.fixed, endpoint.method ≠ .delete := by decide
  exact hall endpoint hmem hmethod

theorem find_fixed_devices (t : Text) :
    AccountEndpoint.fixed.find? (fun endpoint => endpoint.method = HttpMethod.post
      ∧ endpoint.path crates = "/v1/devices/".toList ++ t) = none := by
  refine List.find?_eq_none.mpr fun endpoint hmem hfound => ?_
  have hpath := (of_decide_eq_true hfound).2
  exact devices_append_ne crates t _ (List.mem_map.mpr ⟨endpoint, hmem, rfl⟩) hpath.symm

/-- What is read when no fixed endpoint has the method and the path. -/
theorem parse_of_not_fixed {method : HttpMethod} {path : Text} {endpoint : AccountEndpoint}
    (hnone : AccountEndpoint.fixed.find? (fun endpoint => endpoint.method = method
      ∧ endpoint.path crates = path) = none)
    (h : AccountEndpoint.parse crates method path = .ok endpoint) :
    method = endpoint.method ∧ endpoint.Spells crates path := by
  unfold AccountEndpoint.parse at h
  rw [hnone] at h
  simp only at h
  split at h
  next _ spelling hunlink =>
    split at h
    next id hid =>
      cases h
      split at hunlink
      next hmethod => exact ⟨hmethod, spelling, Text.stripPrefix_eq_some.mp hunlink, hid⟩
      next => cases hunlink
    next => cases h
  next _ spelling _ hrevoke =>
    split at h
    next id hid =>
      cases h
      split at hrevoke
      next hmethod =>
        obtain ⟨rest, hrest, hspelling⟩ := Option.bind_eq_some_iff.mp hrevoke
        refine ⟨hmethod, spelling, ?_, hid⟩
        rw [Text.stripPrefix_eq_some.mp hrest, Text.stripSuffix_eq_some.mp hspelling, List.append_assoc]
      next => cases hrevoke
    next => cases h
  next => cases h

/-- An endpoint is read exactly from its own method and a path that spells it. -/
theorem parse_eq_ok {method : HttpMethod} {path : Text} {endpoint : AccountEndpoint} :
    AccountEndpoint.parse crates method path = .ok endpoint
      ↔ method = endpoint.method ∧ endpoint.Spells crates path := by
  constructor
  · intro h
    cases hfound : AccountEndpoint.fixed.find? (fun endpoint => endpoint.method = method
      ∧ endpoint.path crates = path) with
    | none => exact parse_of_not_fixed hfound h
    | some found =>
      unfold AccountEndpoint.parse at h
      rw [hfound] at h
      cases h
      have hsame := List.find?_some hfound
      obtain ⟨hmethod, hpath⟩ := of_decide_eq_true hsame
      exact ⟨hmethod.symm, (mem_fixed (List.mem_of_find?_eq_some hfound)).mpr hpath.symm⟩
  · rintro ⟨rfl, hspells⟩
    cases endpoint with
    | unlinkExternalIdentity id =>
      obtain ⟨spelling, rfl, hid⟩ := hspells
      show AccountEndpoint.parse crates .delete _ = _
      unfold AccountEndpoint.parse
      rw [find_fixed_delete]
      simp only [reduceCtorEq, if_true, if_false, Text.stripPrefix_append, hid]
    | revokeDevice id =>
      obtain ⟨spelling, rfl, hid⟩ := hspells
      show AccountEndpoint.parse crates .post _ = _
      unfold AccountEndpoint.parse
      rw [List.append_assoc, find_fixed_devices]
      simp only [reduceCtorEq, if_true, if_false, Text.stripPrefix_append, Option.bind_some,
        Text.stripSuffix_append, hid]
    | _ =>
      rw [show path = _ from hspells]
      exact reparsed_fixed (by decide)

/-- Every endpoint is read from its method and its path; and what an endpoint is read from is its
method and its path, but for the spelling of the identifier. -/
theorem parse_iff (huuid : ∀ id, crates.parseUuid (crates.showUuid id) = some id) :
    (∀ endpoint, AccountEndpoint.parse crates endpoint.method (endpoint.path crates) = .ok endpoint)
      ∧ ∀ method path endpoint, AccountEndpoint.parse crates method path = .ok endpoint
        ↔ method = endpoint.method ∧ endpoint.Spells crates path := by
  refine ⟨fun endpoint => parse_eq_ok.mpr ⟨rfl, ?_⟩, fun method path endpoint => parse_eq_ok⟩
  cases endpoint with
  | unlinkExternalIdentity id => exact ⟨crates.showUuid id, rfl, huuid id⟩
  | revokeDevice id => exact ⟨crates.showUuid id, rfl, huuid id⟩
  | _ => rfl

/-! ## The identifiers of the `uuid` crate -/

/-- So many digits of a number, the last ones of its base-16 numeral. -/
def hexDigits : (count : Nat) → Nat → List Nat
  | 0, _ => []
  | count + 1, n => hexDigits count (n / 16) ++ [n % 16]

def ofDigits (digits : List Nat) : Nat := digits.foldl (fun n d => n * 16 + d) 0

theorem ofDigits_hexDigits (count n : Nat) : ofDigits (hexDigits count n) = n % 16 ^ count := by
  induction count generalizing n with
  | zero =>
    rw [pow_zero, Nat.mod_one]
    rfl
  | succ count ih =>
    have hrest := ih (n / 16)
    unfold ofDigits at hrest ⊢
    rw [hexDigits, List.foldl_append, hrest, pow_succ', Nat.mod_mul]
    show n / 16 % 16 ^ count * 16 + n % 16 = _
    omega

theorem length_hexDigits (count n : Nat) : (hexDigits count n).length = count := by
  induction count generalizing n with
  | zero => rfl
  | succ count ih => rw [hexDigits, List.length_append, ih, List.length_singleton]

theorem lt_of_mem_hexDigits {count n d : Nat} (h : d ∈ hexDigits count n) : d < 16 := by
  induction count generalizing n with
  | zero => cases h
  | succ count ih =>
    rcases List.mem_append.mp h with h | h
    · exact ih h
    · rw [List.mem_singleton] at h
      omega

def readDigit (c : Char) : Option Nat :=
  if '0' ≤ c ∧ c ≤ '9' then some (c.toNat - 48)
  else if 'a' ≤ c ∧ c ≤ 'f' then some (c.toNat - 87)
  else if 'A' ≤ c ∧ c ≤ 'F' then some (c.toNat - 55)
  else none

def readSimple (text : Text) : Option Uuid :=
  (text.mapM readDigit).map fun digits => ⟨BitVec.ofNat 128 (ofDigits digits)⟩

def readHyphenated (text : Text) : Option Uuid :=
  if text.length = 36 ∧ [8, 13, 18, 23].all (fun i => text[i]? == some '-') = true then
    readSimple (text.take 8 ++ ((text.drop 9).take 4 ++ ((text.drop 14).take 4
      ++ ((text.drop 19).take 4 ++ text.drop 24))))
  else none

/-- `Uuid::parse_str`: 32 digits; or groups of them, bare, in braces or as a URN. -/
def readUuid (text : Text) : Option Uuid :=
  if text.length = 32 then readSimple text
  else if text.length = 36 then readHyphenated text
  else if text.length = 38 then
    match text with
    | '\x7b' :: rest => if rest.getLast? = some '\x7d' then readHyphenated rest.dropLast else none
    | _ => none
  else if text.length = 45 then (Text.stripPrefix "urn:uuid:".toList text).bind readHyphenated
  else none

/-- The groups of an identifier with hyphens between them. -/
def hyphenate (digits : Text) : Text :=
  digits.take 8 ++ '-' :: ((digits.drop 8).take 4 ++ '-' :: ((digits.drop 12).take 4
    ++ '-' :: ((digits.drop 16).take 4 ++ '-' :: digits.drop 20)))

/-- `Display` of an identifier. -/
def showUuid (id : Uuid) : Text := hyphenate ((hexDigits 32 id.bits.toNat).map Nat.digitChar)

theorem readHyphenated_hyphenate {digits : Text} (h : digits.length = 32) :
    readUuid (hyphenate digits) = readSimple digits := by
  match digits, h with
  | [a0, a1, a2, a3, a4, a5, a6, a7, b0, b1, b2, b3, c0, c1, c2, c3, d0, d1, d2, d3, e0, e1, e2, e3,
      e4, e5, e6, e7, e8, e9, e10, e11], _ => rfl

theorem readDigit_digitChar {d : Nat} (h : d < 16) : readDigit (Nat.digitChar d) = some d := by
  have hall : ∀ d < 16, readDigit (Nat.digitChar d) = some d := by decide
  exact hall d h

theorem mapM_readDigit {digits : List Nat} (h : ∀ d ∈ digits, d < 16) :
    (digits.map Nat.digitChar).mapM readDigit = some digits := by
  induction digits with
  | nil => rfl
  | cons d digits ih =>
    rw [List.forall_mem_cons] at h
    rw [List.map_cons, List.mapM_cons, readDigit_digitChar h.1, ih h.2]
    rfl

/-- The crate reads the identifiers that it writes. -/
theorem readUuid_show (id : Uuid) : readUuid (showUuid id) = some id := by
  have hlength : ((hexDigits 32 id.bits.toNat).map Nat.digitChar).length = 32 := by
    rw [List.length_map, length_hexDigits]
  have hbits : id.bits.toNat % 16 ^ 32 = id.bits.toNat := by
    apply Nat.mod_eq_of_lt
    rw [show 16 ^ 32 = 2 ^ 128 by norm_num]
    exact id.bits.isLt
  unfold showUuid
  rw [readHyphenated_hyphenate hlength, readSimple,
    mapM_readDigit fun d hd => lt_of_mem_hexDigits hd, Option.map_some, ofDigits_hexDigits, hbits,
    BitVec.ofNat_toNat, BitVec.setWidth_eq]

def uuidCrates : External where
  __ := sampleCrates
  showUuid := showUuid
  parseUuid := readUuid

theorem uuidCrates_reads (id : Uuid) :
    uuidCrates.parseUuid (uuidCrates.showUuid id) = some id := by
  rw [show uuidCrates.parseUuid = readUuid from rfl, show uuidCrates.showUuid = showUuid from rfl]
  exact readUuid_show id

theorem parse_iff_uuid :
    (∀ endpoint, AccountEndpoint.parse uuidCrates endpoint.method (endpoint.path uuidCrates)
        = .ok endpoint)
      ∧ ∀ method path endpoint, AccountEndpoint.parse uuidCrates method path = .ok endpoint
        ↔ method = endpoint.method ∧ endpoint.Spells uuidCrates path :=
  @parse_iff uuidCrates uuidCrates_reads

/-- An identifier in braces names the same endpoint as the bare one. -/
theorem parse_braced :
    ¬∀ (method : HttpMethod) (path : Text) (endpoint : AccountEndpoint),
      AccountEndpoint.parse uuidCrates method path = .ok endpoint →
        method = endpoint.method ∧ path = endpoint.path uuidCrates := by
  intro h
  have hspells : (AccountEndpoint.revokeDevice ⟨1⟩).Spells uuidCrates
      ("/v1/devices/".toList ++ '\x7b' :: showUuid ⟨1⟩ ++ ['\x7d'] ++ "/revoke".toList) :=
    ⟨'\x7b' :: showUuid ⟨1⟩ ++ ['\x7d'], by simp, by decide +kernel⟩
  obtain ⟨-, hpath⟩ := h .post _ _ (parse_eq_ok.mpr ⟨rfl, hspells⟩)
  revert hpath
  decide +kernel

end Kaleidoscope.Account
