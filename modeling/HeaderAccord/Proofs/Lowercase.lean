import HeaderAccord.Text.Lowercase
import Mathlib.Data.Nat.Bitwise

/-!
What lower-casing leaves. A character that is no capital is its own lower case, and what a capital
becomes is no capital, so a text that was lowered once is not changed by lowering it again. The
lower case of a character has an underscore in it only if the character is one.
-/

namespace HeaderAccord.Text

/-! ### Sets of characters

A set of characters is held as the bits of one number, which makes two large sets quick to
compare. -/

def bits (cs : List Char) : Nat := cs.foldr (fun c set => 2 ^ c.toNat ||| set) 0

theorem testBit_bits {cs : List Char} {n : Nat} :
    (bits cs).testBit n = true ↔ ∃ c ∈ cs, c.toNat = n := by
  induction cs with
  | nil => simp [bits]
  | cons c cs ih =>
      rw [bits, List.foldr_cons, ← bits, Nat.testBit_or, Bool.or_eq_true, ih, Nat.testBit_two_pow]
      simp

theorem disjoint_of_bits {cs ds : List Char} (h : bits cs &&& bits ds = 0) : cs.Disjoint ds := by
  intro c hc hd
  have hbit : (bits cs &&& bits ds).testBit c.toNat = true := by
    rw [Nat.testBit_and, testBit_bits.2 ⟨c, hc, rfl⟩, testBit_bits.2 ⟨c, hd, rfl⟩]
    rfl
  rw [h, Nat.zero_testBit] at hbit
  cases hbit

/-! ### Capitals -/

namespace CaseRun

def letters (r : CaseRun) : List Char :=
  (List.range' r.first ((r.last - r.first) / r.stride + 1) r.stride).map Char.ofNat

def lower (r : CaseRun) (c : Char) : Char := Char.ofNat (c.toNat + r.shift).toNat

theorem mem_letters {r : CaseRun} {c : Char} (h : r.contains c.toNat = true) :
    c ∈ r.letters := by
  simp only [contains, Bool.and_eq_true, decide_eq_true_eq, beq_iff_eq] at h
  obtain ⟨⟨hfirst, hlast⟩, hstride⟩ := h
  have hstep : (c.toNat - r.first) / r.stride < (r.last - r.first) / r.stride + 1 :=
    Nat.lt_succ_of_le (Nat.div_le_div_right (by omega))
  have hplace : c.toNat = r.first + r.stride * ((c.toNat - r.first) / r.stride) := by
    rw [Nat.mul_div_cancel' (Nat.dvd_of_mod_eq_zero hstride)]
    omega
  exact List.mem_map.2 ⟨c.toNat, List.mem_range'.2 ⟨_, hstep, hplace⟩, Char.ofNat_toNat c⟩

end CaseRun

def asciiRun : CaseRun := ⟨0x41, 0x5A, 1, 32⟩

/-- The characters that have another lower case. -/
def capitals : List Char := 'İ' :: (asciiRun :: caseRuns).flatMap (·.letters)

/-- The characters that the lower cases of the capitals consist of. -/
def lowered : List Char :=
  'i' :: '\u0307' :: (asciiRun :: caseRuns).flatMap fun r => r.letters.map r.lower

theorem disjoint_lowered : ('_' :: capitals).Disjoint lowered :=
  disjoint_of_bits (by decide +kernel)

theorem mem_lowered_of_mem_run {r : CaseRun} (hr : r ∈ asciiRun :: caseRuns) {c : Char}
    (hc : c ∈ r.letters) : r.lower c ∈ lowered :=
  List.mem_cons_of_mem _ (List.mem_cons_of_mem _
    (List.mem_flatMap.2 ⟨r, hr, List.mem_map_of_mem hc⟩))

theorem toLower_of_mem_letters {c : Char} (h : c ∈ asciiRun.letters) :
    c.toLower = asciiRun.lower c := by
  have hall : asciiRun.letters.all (fun c => c.toLower == asciiRun.lower c) = true := by decide
  exact eq_of_beq (List.all_eq_true.1 hall c h)

theorem toLower_of_not_mem_letters {c : Char} (h : c ∉ asciiRun.letters) : c.toLower = c := by
  refine dif_neg fun hcapital => h (CaseRun.mem_letters ?_)
  obtain ⟨hA, hZ⟩ := hcapital
  have hfirst : 0x41 ≤ c.toNat := UInt32.le_iff_toNat_le.1 hA
  have hlast : c.toNat ≤ 0x5A := UInt32.le_iff_toNat_le.1 hZ
  simp [CaseRun.contains, asciiRun, hfirst, hlast, Nat.mod_one]

/-! ### Lower cases -/

theorem lowercase_ne_nil (c : Char) : lowercase c ≠ [] := by
  rw [lowercase]
  split
  · exact List.cons_ne_nil _ _
  · split
    · exact List.cons_ne_nil _ _
    · split <;> exact List.cons_ne_nil _ _

theorem lowercase_of_not_mem_capitals {c : Char} (h : c ∉ capitals) : lowercase c = [c] := by
  simp only [capitals, List.flatMap_cons, List.mem_cons, List.mem_append, not_or] at h
  obtain ⟨hdot, hascii, hruns⟩ := h
  have hnone : caseRuns.find? (·.contains c.toNat) = none := by
    rw [List.find?_eq_none]
    intro r hr hcontains
    exact hruns (List.mem_flatMap.2 ⟨r, hr, CaseRun.mem_letters hcontains⟩)
  rw [lowercase, toLower_of_not_mem_letters hascii, if_neg hdot, hnone]
  split <;> rfl

theorem mem_lowercase {c d : Char} (h : d ∈ lowercase c) :
    d ∈ lowered ∨ (d = c ∧ lowercase c = [c]) := by
  by_cases hascii : c.toNat < 128
  · rw [lowercase_of_ascii hascii, List.mem_singleton] at h
    by_cases hcapital : c ∈ asciiRun.letters
    · rw [h, toLower_of_mem_letters hcapital]
      exact .inl (mem_lowered_of_mem_run List.mem_cons_self hcapital)
    · have hsame := toLower_of_not_mem_letters hcapital
      exact .inr ⟨h.trans hsame, by rw [lowercase_of_ascii hascii, hsame]⟩
  · by_cases hdot : c = 'İ'
    · rw [lowercase, if_neg hascii, if_pos hdot] at h
      exact .inl (List.mem_append_left _ h)
    · rw [lowercase, if_neg hascii, if_neg hdot] at h ⊢
      cases hrun : caseRuns.find? (·.contains c.toNat) with
      | none =>
          rw [hrun] at h
          exact .inr ⟨List.mem_singleton.1 h, rfl⟩
      | some run =>
          rw [hrun] at h
          obtain rfl : d = run.lower c := List.mem_singleton.1 h
          have hmem := List.mem_of_find?_eq_some hrun
          have hcontains := List.find?_some hrun
          exact .inl (mem_lowered_of_mem_run (List.mem_cons_of_mem _ hmem)
            (CaseRun.mem_letters hcontains))

/-- What a lower case consists of is its own lower case. -/
theorem lowercase_of_mem_lowercase {c d : Char} (h : d ∈ lowercase c) : lowercase d = [d] := by
  rcases mem_lowercase h with hlowered | ⟨rfl, hself⟩
  · exact lowercase_of_not_mem_capitals fun hcapital =>
      disjoint_lowered (List.mem_cons_of_mem _ hcapital) hlowered
  · exact hself

theorem underscore_mem_lowercase_iff {c : Char} : '_' ∈ lowercase c ↔ c = '_' := by
  constructor
  · intro h
    rcases mem_lowercase h with hlowered | ⟨rfl, -⟩
    · exact absurd hlowered (disjoint_lowered List.mem_cons_self)
    · rfl
  · rintro rfl
    decide

end HeaderAccord.Text
