import Mathlib
import Autodiff.Chain.Run

set_option autoImplicit false

namespace Autodiff.Progress

/-- The characters from the first `opening` to the next `closing`. -/
def between (opening closing : Char) (cs : List Char) : List Char :=
  ((cs.dropWhile (· != opening)).tail).takeWhile (· != closing)

def numberIn (cs : List Char) : ℕ := Nat.ofDigitChars 10 (cs.filter Char.isDigit) 0

def shownNumber (line : String) : ℕ := numberIn (between ':' '/' line.toList)

def shownPercent (line : String) : ℕ := numberIn (between '[' '%' line.toList)

def shownPhase (line : String) : String := String.ofList (between '(' ')' line.toList)

theorem between_append {opening closing : Char} {before text : List Char} (rest : List Char)
    (hbefore : opening ∉ before) (htext : closing ∉ text) :
    between opening closing (before ++ opening :: (text ++ closing :: rest)) = text := by
  have hdrop : ∀ c ∈ before, (c != opening) = true := fun c hc =>
    bne_iff_ne.mpr fun h => hbefore (h ▸ hc)
  have htake : ∀ c ∈ text, (c != closing) = true := fun c hc =>
    bne_iff_ne.mpr fun h => htext (h ▸ hc)
  unfold between
  rw [List.dropWhile_append_of_pos hdrop, List.dropWhile_cons_of_neg (by simp), List.tail_cons,
    List.takeWhile_append_of_pos htake, List.takeWhile_cons_of_neg (by simp), List.append_nil]

theorem isDigit_of_mem_decimal {n : ℕ} {c : Char} (h : c ∈ decimal n) : c.isDigit = true :=
  Nat.isDigit_of_mem_toDigits (by decide) (by decide) h

theorem not_mem_decimal {c : Char} (hc : c.isDigit = false) (n : ℕ) : c ∉ decimal n := fun h =>
  Bool.false_ne_true (hc.symm.trans (isDigit_of_mem_decimal h))

theorem not_mem_padLeft {c : Char} (hc : c.isDigit = false) (hblank : c ≠ ' ') (width n : ℕ) :
    c ∉ padLeft width (decimal n) := by
  rw [padLeft, List.mem_append]
  rintro (h | h)
  · exact hblank (List.eq_of_mem_replicate h)
  · exact not_mem_decimal hc n h

theorem numberIn_padLeft (width n : ℕ) : numberIn (padLeft width (decimal n)) = n := by
  have hblank : ∀ k, (List.replicate k ' ').filter Char.isDigit = [] := fun k =>
    List.filter_replicate_of_neg (by decide)
  have hdigits : (decimal n).filter Char.isDigit = decimal n :=
    List.filter_eq_self.mpr fun c hc => isDigit_of_mem_decimal hc
  rw [numberIn, padLeft, List.filter_append, hblank, hdigits, List.nil_append]
  exact Nat.ofDigitChars_ten_toDigits

theorem length_padLeft {width : ℕ} {text : List Char} (h : text.length ≤ width) :
    (padLeft width text).length = width := by
  rw [padLeft, List.length_append, List.length_replicate]
  omega

theorem length_decimal_le {n k : ℕ} (hk : 0 < k) (h : n < 10 ^ k) : (decimal n).length ≤ k :=
  (Nat.length_toDigits_le_iff (by decide) hk).mpr h

theorem length_decimal_mono {m n : ℕ} (h : m ≤ n) : (decimal m).length ≤ (decimal n).length := by
  have hpos : 0 < (decimal n).length := Nat.length_toDigits_pos
  refine length_decimal_le hpos (Nat.lt_of_le_of_lt h ?_)
  exact (Nat.length_toDigits_le_iff (by decide) hpos).mp le_rfl

variable (p : Progress) (n percent : ℕ)

def phaseAt : String := if n ≤ p.warmup then "Warmup" else "Sampling"

theorem toList_lineAt : (p.lineAt n percent).toList =
    ['I', 't', 'e', 'r', 'a', 't', 'i', 'o', 'n', ':', ' '] ++
      padLeft (decimal p.finish).length (decimal n) ++ [' ', '/', ' '] ++ decimal p.finish ++
      [' ', '['] ++ padLeft 3 (decimal percent) ++ ['%', ']', ' ', ' ', '('] ++
        (p.phaseAt n).toList ++ [')'] := by
  change ("Iteration: " ++ String.ofList (padLeft (decimal p.finish).length (decimal n)) ++ " / " ++
    String.ofList (decimal p.finish) ++ " [" ++ String.ofList (padLeft 3 (decimal percent)) ++
      "%]  (" ++ p.phaseAt n ++ ")").toList = _
  simp only [String.toList_append, String.toList_ofList]
  rfl

theorem shownNumber_lineAt : shownNumber (p.lineAt n percent) = n := by
  let number := padLeft (decimal p.finish).length (decimal n)
  have hsplit : ∃ rest, (p.lineAt n percent).toList =
      ['I', 't', 'e', 'r', 'a', 't', 'i', 'o', 'n'] ++
        ':' :: (' ' :: (number ++ [' ']) ++ '/' :: rest) := by
    rw [toList_lineAt]
    simp only [number, List.append_assoc, List.cons_append, List.nil_append]
    exact ⟨_, rfl⟩
  obtain ⟨rest, hsplit⟩ := hsplit
  have hslash : '/' ∉ ' ' :: (number ++ [' ']) := by
    have hnumber : '/' ∉ number := not_mem_padLeft (by decide) (by decide) _ n
    simp [hnumber]
  rw [shownNumber, hsplit, between_append rest (by decide) hslash]
  have hblanks : numberIn (' ' :: (number ++ [' '])) = numberIn number := by
    simp [numberIn, List.filter_append]
  rw [hblanks]
  exact numberIn_padLeft _ n

theorem shownPercent_lineAt : shownPercent (p.lineAt n percent) = percent := by
  let before := ['I', 't', 'e', 'r', 'a', 't', 'i', 'o', 'n', ':', ' '] ++
    padLeft (decimal p.finish).length (decimal n) ++ [' ', '/', ' '] ++ decimal p.finish ++ [' ']
  have hsplit : ∃ rest, (p.lineAt n percent).toList =
      before ++ '[' :: (padLeft 3 (decimal percent) ++ '%' :: rest) := by
    rw [toList_lineAt]
    simp only [before, List.append_assoc, List.cons_append, List.nil_append]
    exact ⟨_, rfl⟩
  obtain ⟨rest, hsplit⟩ := hsplit
  have hbefore : '[' ∉ before := by
    have hnumber := not_mem_padLeft (c := '[') (by decide) (by decide) (decimal p.finish).length n
    have hfinish := not_mem_decimal (c := '[') (by decide) p.finish
    simp [before, hnumber, hfinish]
  have hpercent : '%' ∉ padLeft 3 (decimal percent) :=
    not_mem_padLeft (by decide) (by decide) 3 percent
  rw [shownPercent, hsplit, between_append rest hbefore hpercent]
  exact numberIn_padLeft 3 percent

example : shownPercent ((⟨1000, 1000, 2000, 100⟩ : Progress).lineAt 1001 50) = 50 := by decide

theorem shownPhase_lineAt : shownPhase (p.lineAt n percent) = p.phaseAt n := by
  let before := ['I', 't', 'e', 'r', 'a', 't', 'i', 'o', 'n', ':', ' '] ++
    padLeft (decimal p.finish).length (decimal n) ++ [' ', '/', ' '] ++ decimal p.finish ++
      [' ', '['] ++ padLeft 3 (decimal percent) ++ ['%', ']', ' ', ' ']
  have hsplit : (p.lineAt n percent).toList =
      before ++ '(' :: ((p.phaseAt n).toList ++ ')' :: []) := by
    rw [toList_lineAt]
    simp only [before, List.append_assoc, List.cons_append, List.nil_append]
  have hbefore : '(' ∉ before := by
    have hnumber := not_mem_padLeft (c := '(') (by decide) (by decide) (decimal p.finish).length n
    have hfinish := not_mem_decimal (c := '(') (by decide) p.finish
    have hpercent := not_mem_padLeft (c := '(') (by decide) (by decide) 3 percent
    simp [before, hnumber, hfinish, hpercent]
  have hphase : ')' ∉ (p.phaseAt n).toList := by
    unfold phaseAt
    split <;> decide
  rw [shownPhase, hsplit, between_append [] hbefore hphase, String.ofList_toList]

theorem length_lineAt (hn : n ≤ p.finish) (hpercent : percent ≤ 100) :
    (p.lineAt n percent).length = 25 + 2 * (decimal p.finish).length + (p.phaseAt n).length := by
  have hnumber := length_padLeft (length_decimal_mono hn)
  have hthree := length_padLeft (length_decimal_le (n := percent) (k := 3) (by decide) (by omega))
  rw [← String.length_toList, toList_lineAt, ← String.length_toList (s := p.phaseAt n)]
  simp only [List.length_append, hnumber, hthree, List.length_cons, List.length_nil]
  omega

end Autodiff.Progress
