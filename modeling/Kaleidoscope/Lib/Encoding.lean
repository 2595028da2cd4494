import Mathlib.Data.List.Basic
import Mathlib.Data.UInt

/-!
# Code points and their encodings

A text is the list of its code points, surrogates included.  Decoding is strict but for surrogates,
which it lets pass as code points of their own: bytes that encode no text have none.

    encodeUtf8_injective_ascii    only an ASCII text is encoded as an ASCII text is
-/

namespace Unicode

/-- A text that may hold surrogates. -/
abbrev Points := List Nat

inductive Endian where
  | big
  | little
  deriving DecidableEq

inductive Encoding where
  | utf8
  | utf16 (endian : Endian)
  | utf32 (endian : Endian)
  deriving DecidableEq

def isContinuation (b : UInt8) : Bool := 0x80 ≤ b && b ≤ 0xBF

def isHighSurrogate (n : Nat) : Bool := 0xD800 ≤ n && n ≤ 0xDBFF

def isLowSurrogate (n : Nat) : Bool := 0xDC00 ≤ n && n ≤ 0xDFFF

/-- The code point of a surrogate pair. -/
def joinSurrogates (high low : Nat) : Nat := 0x10000 + (high - 0xD800) * 0x400 + (low - 0xDC00)

def isSurrogate (n : Nat) : Bool := isHighSurrogate n || isLowSurrogate n

/-- A code point that is no surrogate. -/
def isScalar (n : Nat) : Bool := n ≤ 0x10FFFF && !isSurrogate n

/-- The order of the code points, or of the units. -/
def lt : List Nat → List Nat → Bool
  | _, [] => false
  | [], _ :: _ => true
  | a :: s, b :: t => a < b || (a == b && lt s t)

/-- The units of UTF-16. -/
def utf16 (s : Points) : List Nat :=
  s.flatMap fun n =>
    if n < 0x10000 then [n]
    else [0xD800 + (n - 0x10000) / 0x400, 0xDC00 + (n - 0x10000) % 0x400]

def encodeUtf8Point (n : Nat) : List UInt8 :=
  if n < 0x80 then [UInt8.ofNat n]
  else if n < 0x800 then [UInt8.ofNat (0xC0 + n / 64), UInt8.ofNat (0x80 + n % 64)]
  else if n < 0x10000 then
    [UInt8.ofNat (0xE0 + n / 4096), UInt8.ofNat (0x80 + n / 64 % 64), UInt8.ofNat (0x80 + n % 64)]
  else
    [UInt8.ofNat (0xF0 + n / 262144), UInt8.ofNat (0x80 + n / 4096 % 64),
      UInt8.ofNat (0x80 + n / 64 % 64), UInt8.ofNat (0x80 + n % 64)]

def encodeUtf8 (s : Points) : List UInt8 := s.flatMap encodeUtf8Point

/-- The well-formed sequences of UTF-8, and the three-byte ones of the surrogates. -/
def decodeUtf8 : List UInt8 → Option Points
  | [] => some []
  | a :: rest =>
    if a < 0x80 then (decodeUtf8 rest).map (a.toNat :: ·)
    else match rest with
      | [] => none
      | b :: rest =>
        if !isContinuation b then none
        else if 0xC2 ≤ a ∧ a ≤ 0xDF then
          (decodeUtf8 rest).map (((a.toNat - 0xC0) * 64 + (b.toNat - 0x80)) :: ·)
        else match rest with
          | [] => none
          | c :: rest =>
            if !isContinuation c then none
            else if 0xE0 ≤ a ∧ a ≤ 0xEF then
              if a = 0xE0 ∧ b < 0xA0 then none
              else (decodeUtf8 rest).map
                (((a.toNat - 0xE0) * 4096 + (b.toNat - 0x80) * 64 + (c.toNat - 0x80)) :: ·)
            else match rest with
              | [] => none
              | d :: rest =>
                if !isContinuation d then none
                else if a < 0xF0 ∨ 0xF4 < a ∨ (a = 0xF0 ∧ b < 0x90) ∨ (a = 0xF4 ∧ 0x8F < b) then
                  none
                else (decodeUtf8 rest).map
                  (((a.toNat - 0xF0) * 262144 + (b.toNat - 0x80) * 4096
                    + (c.toNat - 0x80) * 64 + (d.toNat - 0x80)) :: ·)

/-- The 16-bit units of the bytes. -/
def units (endian : Endian) : List UInt8 → Option (List Nat)
  | [] => some []
  | [_] => none
  | a :: b :: rest =>
    let unit := match endian with
      | .big => a.toNat * 256 + b.toNat
      | .little => b.toNat * 256 + a.toNat
    (units endian rest).map (unit :: ·)

/-- Pairs of surrogates joined, other surrogates left as they are. -/
def joinPairs : List Nat → Points
  | [] => []
  | [n] => [n]
  | high :: low :: rest =>
    if isHighSurrogate high ∧ isLowSurrogate low then joinSurrogates high low :: joinPairs rest
    else high :: joinPairs (low :: rest)

def decodeUtf32 (endian : Endian) : List UInt8 → Option Points
  | [] => some []
  | a :: b :: c :: d :: rest =>
    let point := match endian with
      | .big => a.toNat * 16777216 + b.toNat * 65536 + c.toNat * 256 + d.toNat
      | .little => d.toNat * 16777216 + c.toNat * 65536 + b.toNat * 256 + a.toNat
    if point ≤ 0x10FFFF then (decodeUtf32 endian rest).map (point :: ·) else none
  | _ => none

/-- The text of the bytes in an encoding. -/
def decode : Encoding → List UInt8 → Option Points
  | .utf8, bytes => decodeUtf8 bytes
  | .utf16 endian, bytes => (units endian bytes).map joinPairs
  | .utf32 endian, bytes => decodeUtf32 endian bytes

/-! ## Lemmas -/

theorem encodeUtf8Point_ascii {n : Nat} (h : n < 0x80) : encodeUtf8Point n = [UInt8.ofNat n] := by
  unfold encodeUtf8Point
  rw [if_pos h]

theorem encodeUtf8_ascii {s : Points} (h : ∀ n ∈ s, n < 0x80) :
    encodeUtf8 s = s.map UInt8.ofNat := by
  induction s with
  | nil => rfl
  | cons n s ih =>
    have hrest := ih fun k hk => h k (by simp [hk])
    unfold encodeUtf8 at hrest ⊢
    rw [List.flatMap_cons, encodeUtf8Point_ascii (h n (by simp)), hrest, List.map_cons]
    rfl

/-- The last byte of a code point outside ASCII is not ASCII. -/
theorem encodeUtf8Point_large {n : Nat} (h : ¬ n < 0x80) :
    ∃ b ∈ encodeUtf8Point n, 0x80 ≤ b.toNat := by
  refine ⟨UInt8.ofNat (0x80 + n % 64), ?_, ?_⟩
  · unfold encodeUtf8Point
    rw [if_neg h]
    split
    · simp
    · split <;> simp
  · rw [UInt8.toNat_ofNat']
    omega

/-- Only an ASCII text is encoded as an ASCII text is. -/
theorem encodeUtf8_injective_ascii {s t : Points} (hs : ∀ n ∈ s, n < 0x80)
    (h : encodeUtf8 s = encodeUtf8 t) : s = t := by
  have ht : ∀ n ∈ t, n < 0x80 := by
    intro n hn
    by_contra hlarge
    obtain ⟨b, hb, hge⟩ := encodeUtf8Point_large hlarge
    have hmem : b ∈ encodeUtf8 s := by
      rw [h]
      exact List.mem_flatMap.mpr ⟨n, hn, hb⟩
    rw [encodeUtf8_ascii hs] at hmem
    obtain ⟨k, hk, rfl⟩ := List.mem_map.mp hmem
    have hlt := hs k hk
    rw [UInt8.toNat_ofNat'] at hge
    omega
  rw [encodeUtf8_ascii hs, encodeUtf8_ascii ht] at h
  induction s generalizing t with
  | nil =>
    cases t with
    | nil => rfl
    | cons b t => cases h
  | cons a s ih =>
    cases t with
    | nil => cases h
    | cons b t =>
      obtain ⟨hhead, htail⟩ := List.cons.inj h
      have ha := hs a (by simp)
      have hb := ht b (by simp)
      have hnat := congrArg UInt8.toNat hhead
      rw [UInt8.toNat_ofNat', UInt8.toNat_ofNat'] at hnat
      rw [ih (fun n hn => hs n (by simp [hn])) htail fun n hn => ht n (by simp [hn])]
      congr 1
      omega

end Unicode
