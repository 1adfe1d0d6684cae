import Tirke.Lib.Numeral
import Tirke.Models.Transcript
/-!
# Identifiers as text

| here | there |
| --- | --- |
| `UUID.str`, `UUID.parse` | `str(UUID)` and `UUID(text)` |

`UUID` reads more spellings than `UUID.parse`; both read what `str` prints (`parse_str`).
-/

namespace Tirke

open Numeral

/-- The hyphens behind 8, 12, 16 and 20 of the 32 digits. -/
def UUID.str (id : UUID) : Str :=
  let hex := numeral 16 32 id.toNat
  hex.take 8 ++ '-' :: ((hex.drop 8).take 4 ++ '-' :: ((hex.drop 12).take 4 ++ '-' :: ((hex.drop 16).take 4 ++
    '-' :: hex.drop 20)))

def UUID.parse (s : Str) : Option UUID :=
  match number 16 32 (s.filter (· ≠ '-')) with
  | some (n, []) => some (BitVec.ofNat 128 n)
  | _ => none

theorem numeral_no_dash {k n : Nat} : ∀ c ∈ numeral 16 k n, c ≠ '-' := by
  intro c hc
  obtain ⟨d, hd, rfl⟩ := mem_numeral (by decide) hc
  have hall : ∀ d : Fin 16, digitChar d ≠ '-' := by decide
  exact hall ⟨d, hd⟩

/-- What holds of the digits and the hyphen holds of the text. -/
theorem forall_str {P : Char → Prop} (hdigit : ∀ d < 16, P (digitChar d)) (hdash : P '-') {id : UUID} :
    ∀ c ∈ UUID.str id, P c := by
  have hhex : ∀ c ∈ numeral 16 32 id.toNat, P c := by
    intro c hc
    obtain ⟨d, hd, rfl⟩ := mem_numeral (by decide) hc
    exact hdigit d hd
  simp only [UUID.str, List.forall_mem_append, List.forall_mem_cons]
  exact ⟨fun c h => hhex c (List.mem_of_mem_take h), hdash,
    fun c h => hhex c (List.mem_of_mem_drop (List.mem_of_mem_take h)), hdash,
    fun c h => hhex c (List.mem_of_mem_drop (List.mem_of_mem_take h)), hdash,
    fun c h => hhex c (List.mem_of_mem_drop (List.mem_of_mem_take h)), hdash, fun c h => hhex c (List.mem_of_mem_drop h)⟩

/-- Without the hyphens. -/
theorem filter_str {id : UUID} : (UUID.str id).filter (· ≠ '-') = numeral 16 32 id.toNat := by
  have hkeep : ∀ s : Str, (∀ c ∈ s, c ∈ numeral 16 32 id.toNat) → s.filter (· ≠ '-') = s := by
    intro s hs
    exact List.filter_eq_self.2 fun c hc => by simpa using numeral_no_dash c (hs c hc)
  have hdash : ∀ s : Str, ('-' :: s).filter (· ≠ '-') = s.filter (· ≠ '-') := fun s => rfl
  simp only [UUID.str, List.filter_append, hdash]
  rw [hkeep _ fun c => List.mem_of_mem_take, hkeep _ fun c h => List.mem_of_mem_drop (List.mem_of_mem_take h),
    hkeep _ fun c h => List.mem_of_mem_drop (List.mem_of_mem_take h),
    hkeep _ fun c h => List.mem_of_mem_drop (List.mem_of_mem_take h), hkeep _ fun c => List.mem_of_mem_drop]
  generalize numeral 16 32 id.toNat = hex
  have hcut : ∀ n, (hex.drop n).take 4 ++ hex.drop (n + 4) = hex.drop n := by
    intro n
    rw [← List.drop_drop]
    exact List.take_append_drop 4 (hex.drop n)
  rw [hcut 16, hcut 12, hcut 8, List.take_append_drop]

theorem number_str {id : UUID} : number 16 32 (numeral 16 32 id.toNat) = some (id.toNat, []) := by
  have hn : id.toNat < 16 ^ 32 := id.isLt
  have := @number_numeral 16 32 id.toNat [] (by decide) (by decide)
  rwa [List.append_nil, Nat.mod_eq_of_lt hn] at this

theorem parse_str {id : UUID} : UUID.parse (UUID.str id) = some id := by
  simp only [UUID.parse, filter_str, number_str, BitVec.ofNat_toNat, BitVec.setWidth_eq]

theorem str_injective : Function.Injective UUID.str := by
  intro id id' h
  have := congrArg UUID.parse h
  rw [parse_str, parse_str] at this
  exact Option.some.inj this

theorem length_str {id : UUID} : (UUID.str id).length = 36 := by
  simp [UUID.str]

end Tirke
