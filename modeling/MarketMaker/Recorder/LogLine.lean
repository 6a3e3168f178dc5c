import MarketMaker.Foundation.FixedPoint
import MarketMaker.Foundation.U64
import MarketMaker.Recorder.Markout

/-!
# The log line of a markout

The recorder writes one line for every completed markout: the execution id, a bar, and the fields of
the markout with a blank between them, numbers with five decimals.  No field holds a blank, so the
last twelve words of a line are the fields and the line tells the execution id, whatever it is.
-/

namespace MarketMaker

namespace F64

theorem mem_placePoint {places : ℕ} {digits : List Char} {c : Char}
    (hc : c ∈ placePoint places digits) : c ∈ digits ∨ c = '.' := by
  unfold placePoint at hc
  obtain hc | hc := List.mem_append.mp hc
  · exact .inl (List.mem_of_mem_take hc)
  · split_ifs at hc
    · cases hc
    · obtain rfl | hc := List.mem_cons.mp hc
      · exact .inr rfl
      · exact .inl (List.mem_of_mem_drop hc)

/-- A formatted number is one word. -/
theorem blank_notMem_formatFixed (places : ℕ) (value : ℚ) :
    ' ' ∉ (formatFixed places value).toList := by
  intro hmem
  rw [formatFixed, String.toList_ofList, List.mem_append] at hmem
  obtain hsign | hmem := hmem
  · split_ifs at hsign <;> simp at hsign
  · obtain hdigit | hpoint := mem_placePoint hmem
    · exact absurd (isDigit_fixedDigits hdigit) (by decide)
    · exact absurd hpoint (by decide)

/-- A formatted number starts with a minus sign exactly when it is negative. -/
theorem head_formatFixed (places : ℕ) (value : ℚ) :
    (formatFixed places value).toList.head? = some '-' ↔ value < 0 := by
  rw [formatFixed, String.toList_ofList]
  by_cases hnegative : value < 0
  · simp [hnegative]
  · have hlength := length_fixedDigits places (roundHalfEven (|value| * 10 ^ places)).toNat
    obtain ⟨first, rest, hdigits⟩ := List.exists_cons_of_length_pos (Nat.zero_lt_of_lt hlength)
    obtain ⟨keep, hkeep⟩ := Nat.exists_eq_add_one_of_ne_zero (Nat.sub_ne_zero_of_lt hlength)
    have hfirst : first ≠ '-' := by
      rintro rfl
      have hdigit := isDigit_fixedDigits (hdigits ▸ List.mem_cons_self ..)
      exact absurd hdigit (by decide)
    rw [if_neg hnegative, List.nil_append, placePoint, hkeep, hdigits]
    simp [hfirst, hnegative]

/-- The texts of two numbers agree exactly when the numbers round to the same value and have the
same sign, which is also written before zero. -/
theorem formatFixed_eq_iff (places : ℕ) (left right : ℚ) :
    formatFixed places left = formatFixed places right ↔
      fixedValue places left = fixedValue places right ∧ (left < 0 ↔ right < 0) := by
  constructor
  · intro htext
    constructor
    · have hparse := parse_formatFixed places left
      rw [htext, parse_formatFixed] at hparse
      exact (Option.some.inj hparse).symm
    · rw [← head_formatFixed places left, htext, head_formatFixed]
  · intro hsame
    obtain ⟨hvalue, hsign⟩ := hsame
    have hunit : (10 : ℚ) ^ places ≠ 0 := by positivity
    have hrounded : roundHalfEven (left * 10 ^ places) = roundHalfEven (right * 10 ^ places) := by
      exact_mod_cast (div_left_inj' hunit).mp hvalue
    have habs : roundHalfEven (|left| * 10 ^ places) = roundHalfEven (|right| * 10 ^ places) := by
      by_cases hnegative : left < 0
      · rw [abs_of_neg hnegative, abs_of_neg (hsign.mp hnegative), neg_mul, neg_mul,
          roundHalfEven_neg, roundHalfEven_neg, hrounded]
      · rw [abs_of_nonneg (not_lt.mp hnegative),
          abs_of_nonneg (not_lt.mp (mt hsign.mpr hnegative)), hrounded]
    unfold formatFixed
    simp only [habs, hsign]

end F64

variable {F : Type}

def OrderSide.display : OrderSide → String
  | .buy => "Buy"
  | .sell => "Sell"

variable [F64Format F]

def DataPoint.display (dataPoint : DataPoint F) : String :=
  F64Format.formatFixed 5 dataPoint.midPrice ++ " " ++
    F64Format.formatFixed 5 dataPoint.imbalance

/-- Slots that are empty are written as placeholders. -/
def PendingMarkout.display (pending : PendingMarkout F) : String :=
  " ".intercalate
    ([toString pending.orderLinkId, toString pending.fillTs, pending.side.display,
      F64Format.formatFixed 5 pending.limitPrice, F64Format.formatFixed 5 pending.execPrice,
      F64Format.formatFixed 5 pending.execQty] ++
    [pending.mid1s, pending.mid5s, pending.mid10s].map fun slot ↦
      (slot.map DataPoint.display).getD "NA")

namespace CompletedMarkout

def display (markout : CompletedMarkout F) : String :=
  " ".intercalate
    [toString markout.orderLinkId, toString markout.fillTs, markout.side.display,
      F64Format.formatFixed 5 markout.limitPrice, F64Format.formatFixed 5 markout.execPrice,
      F64Format.formatFixed 5 markout.execQty, markout.mid1s.display, markout.mid5s.display,
      markout.mid10s.display]

/-- What the recorder writes for a markout. -/
def logLine (markout : CompletedMarkout F) : String :=
  "ExecId " ++ markout.execId ++ " | " ++ markout.display

/-- A markout is written as the trade that it completes. -/
theorem display_ofPending {trade : String × PendingMarkout F} {markout : CompletedMarkout F}
    (hmarkout : ofPending trade = some markout) : markout.display = trade.2.display := by
  have hrecords := records_of_ofPending hmarkout
  rw [display, PendingMarkout.display, hrecords.orderLinkId, hrecords.fillTs, hrecords.side,
    hrecords.limitPrice, hrecords.execPrice, hrecords.execQty, ← hrecords.mid1s, ← hrecords.mid5s,
    ← hrecords.mid10s]
  rfl

/-! ## Reading a line -/

def numbers (markout : CompletedMarkout F) : List F :=
  [markout.limitPrice, markout.execPrice, markout.execQty] ++
    [markout.mid1s, markout.mid5s, markout.mid10s].flatMap fun dataPoint ↦
      [dataPoint.midPrice, dataPoint.imbalance]

def words (markout : CompletedMarkout F) : List String :=
  [toString markout.orderLinkId, toString markout.fillTs, markout.side.display] ++
    markout.numbers.map (F64Format.formatFixed 5)

theorem length_words (markout : CompletedMarkout F) : markout.words.length = 12 := rfl

theorem display_eq_words (markout : CompletedMarkout F) :
    markout.display = " ".intercalate markout.words := by
  simp [display, words, numbers, DataPoint.display, String.intercalate_cons_cons,
    String.append_assoc]

/-- The characters of a line split at the blanks: those before the fields, then the fields. -/
theorem splitOn_logLine (markout : CompletedMarkout F)
    (hwords : ∀ word ∈ markout.words, ' ' ∉ word.toList) :
    markout.logLine.toList.splitOn ' ' =
      ("ExecId " ++ markout.execId ++ " |").toList.splitOn ' ' ++
        markout.words.map String.toList := by
  have hline : markout.logLine.toList = ("ExecId " ++ markout.execId ++ " |").toList ++
      ' ' :: [' '].intercalate (markout.words.map String.toList) := by
    rw [logLine, display_eq_words]
    simp [String.toList_intercalate]
  rw [hline, List.splitOn_append_cons_self, List.splitOn_intercalate]
  · intro chars hchars
    obtain ⟨word, hword, rfl⟩ := List.mem_map.mp hchars
    exact hwords word hword
  · simp [words]

end CompletedMarkout

theorem blank_notMem_toString (n : UInt64) : ' ' ∉ (toString n).toList := by
  intro hmem
  change ' ' ∈ (Nat.repr n.toNat).toList at hmem
  rw [Nat.toList_repr] at hmem
  exact absurd (Nat.isDigit_of_mem_toDigits (by decide) (by decide) hmem) (by decide)

namespace CompletedMarkout

theorem blank_notMem_words (markout : CompletedMarkout ℚ) :
    ∀ word ∈ markout.words, ' ' ∉ word.toList := by
  intro word hword
  obtain hfield | hnumber := List.mem_append.mp hword
  · simp only [List.mem_cons, List.not_mem_nil, or_false] at hfield
    obtain rfl | rfl | rfl := hfield
    · exact blank_notMem_toString markout.orderLinkId
    · exact blank_notMem_toString markout.fillTs
    · cases markout.side <;> decide
  · obtain ⟨number, -, rfl⟩ := List.mem_map.mp hnumber
    exact F64.blank_notMem_formatFixed 5 number

/-- What a line tells of a number. -/
def Shown (left right : ℚ) : Prop :=
  F64.fixedValue 5 left = F64.fixedValue 5 right ∧ (left < 0 ↔ right < 0)

theorem words_eq_iff (first second : CompletedMarkout ℚ) :
    first.words = second.words ↔ first.orderLinkId = second.orderLinkId ∧
      first.fillTs = second.fillTs ∧ first.side = second.side ∧
      List.Forall₂ Shown first.numbers second.numbers := by
  have hside : first.side.display = second.side.display ↔ first.side = second.side := by
    cases first.side <;> cases second.side <;> decide
  have hnumbers : first.numbers.map (F64Format.formatFixed 5) =
      second.numbers.map (F64Format.formatFixed 5) ↔
        List.Forall₂ Shown first.numbers second.numbers := by
    rw [← List.forall₂_eq_eq_eq, List.forall₂_map_left_iff, List.forall₂_map_right_iff]
    have hshown : Shown = fun left right : ℚ ↦
        (F64Format.formatFixed 5 left = F64Format.formatFixed 5 right) := by
      funext left right
      exact propext (F64.formatFixed_eq_iff 5 left right).symm
    rw [hshown]
  simp only [words, List.cons_append, List.nil_append, List.cons.injEq, toString_injective.eq_iff,
    hside, hnumbers]

/-- Two completed markouts have the same line exactly when they have the same execution id, link id,
fill time and side, and their numbers agree to five decimals and in sign. -/
theorem logLine_eq_iff (first second : CompletedMarkout ℚ) :
    first.logLine = second.logLine ↔ first.execId = second.execId ∧
      first.orderLinkId = second.orderLinkId ∧ first.fillTs = second.fillTs ∧
      first.side = second.side ∧ List.Forall₂ Shown first.numbers second.numbers := by
  rw [← words_eq_iff]
  constructor
  · intro hline
    have hsplit := splitOn_logLine first (blank_notMem_words first)
    rw [hline, splitOn_logLine second (blank_notMem_words second)] at hsplit
    have hlength : (second.words.map String.toList).length =
        (first.words.map String.toList).length := by simp [length_words]
    obtain ⟨hstart, hwords⟩ := List.append_inj' hsplit hlength
    have hearlier : "ExecId " ++ second.execId ++ " |" = "ExecId " ++ first.execId ++ " |" := by
      have hchars := congrArg [' '].intercalate hstart
      rw [List.intercalate_splitOn, List.intercalate_splitOn] at hchars
      exact String.toList_inj.mp hchars
    refine ⟨?_, ?_⟩
    · exact ((String.append_right_inj _).mp ((String.append_left_inj _).mp hearlier)).symm
    · exact (List.map_injective_iff.mpr (fun _ _ ↦ String.toList_injective) hwords).symm
  · intro hsame
    rw [logLine, logLine, display_eq_words, display_eq_words, hsame.1, hsame.2]

end CompletedMarkout

end MarketMaker
