import Mathlib.Data.List.Basic

/-!
# Base64 — the alphabet for URLs, without padding

Three bytes are written as four characters of six bits each; what is left at the end takes two or three
characters.
-/

namespace Pgaio
namespace Text
namespace Base64

def urlAlphabet : List Char :=
  "ABCDEFGHIJKLMNOPQRSTUVWXYZabcdefghijklmnopqrstuvwxyz0123456789-_".toList

/-- The values of the characters. -/
def sextets : List UInt8 → List Nat
  | a :: b :: c :: rest =>
      a.toNat / 4 :: (a.toNat % 4 * 16 + b.toNat / 16) :: (b.toNat % 16 * 4 + c.toNat / 64) ::
        c.toNat % 64 :: sextets rest
  | [a, b] => [a.toNat / 4, a.toNat % 4 * 16 + b.toNat / 16, b.toNat % 16 * 4]
  | [a] => [a.toNat / 4, a.toNat % 4 * 16]
  | [] => []

/-- `base64.RawURLEncoding.EncodeToString`. -/
def rawURLEncode (bytes : List UInt8) : String :=
  String.ofList ((sextets bytes).map fun n => urlAlphabet.getD n 'A')

/-- Nothing but characters of the alphabet. -/
theorem mem_urlAlphabet {bytes : List UInt8} {c : Char} (h : c ∈ (rawURLEncode bytes).toList) :
    c ∈ urlAlphabet := by
  rw [rawURLEncode, String.toList_ofList] at h
  obtain ⟨n, -, rfl⟩ := List.mem_map.1 h
  rw [List.getD_eq_getElem?_getD]
  cases hget : urlAlphabet[n]? with
  | none => exact List.mem_cons_self
  | some d => exact List.mem_of_getElem? hget

theorem rawURLEncode_ne_empty {bytes : List UInt8} (h : bytes ≠ []) : rawURLEncode bytes ≠ "" := by
  intro hempty
  have hlist := congrArg String.toList hempty
  rw [rawURLEncode, String.toList_ofList] at hlist
  have hnil : sextets bytes = [] := List.map_eq_nil_iff.1 hlist
  unfold sextets at hnil
  split at hnil <;> first | exact h rfl | cases hnil

example : rawURLEncode [0x14, 0xfb, 0x9c, 0x03, 0xd9, 0x7e] = "FPucA9l-" := by decide

end Base64
end Text
end Pgaio
