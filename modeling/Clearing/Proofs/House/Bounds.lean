import Clearing.Format.Setup
import Clearing.Proofs.House.Candidates
import Clearing.Proofs.House.Terms

/-!
The bounds on the terms of every market.

What passed its check is within all bounds but one.  No check looks at the leverage cap, so a cap is
as good as where it comes from: the setup, whose text can name the cap zero, or a call.

Main statement: `run_within_bounds_iff`.  After any run, a market is within its bounds just where
the cap that it was given last is at least one.
-/

namespace Clearing

/-! ### What a check leaves open -/

theorem DeleverageTerms.defect?_eq_none {t : DeleverageTerms} :
    t.defect? = none ↔ 0 ≤ t.insuranceThreshold.toInt ∧ t.insuranceThreshold.toInt ≤ 10000 ∧
      1 ≤ t.maxPositions := by
  have hpositions : t.maxPositions = 0 ↔ ¬ 1 ≤ t.maxPositions := by
    rw [UInt32.le_iff_toNat_le, ← UInt32.toNat_inj]
    exact (Nat.lt_one_iff.symm.trans Nat.not_le.symm)
  unfold defect?
  split
  · simp only [reduceCtorEq, false_iff]
    omega
  · split
    · rename_i hnone
      simp only [reduceCtorEq, false_iff]
      exact fun h => hpositions.1 hnone h.2.2
    · rename_i hrange hsome
      rw [hpositions, not_not] at hsome
      simp only [true_iff]
      exact ⟨by omega, by omega, hsome⟩

theorem FundingTerms.defect?_eq_none {t : FundingTerms} :
    t.defect? = none ↔ 0 ≤ t.maxRate.toInt ∧ t.maxRate.toInt ≤ 10000 := by
  unfold defect?
  split <;> simp only [reduceCtorEq, false_iff, true_iff] <;> omega

/-- The terms are within their bounds, the leverage cap among them. -/
structure MarketTerms.WithinBounds (t : MarketTerms) : Prop where
  margins : ∀ tier, t.margin = some tier →
    0 ≤ tier.maintenance.toInt ∧ tier.maintenance.toInt < tier.initial.toInt ∧
      tier.initial.toInt ≤ 10000
  leverage : ∀ tier, t.margin = some tier → 1 ≤ tier.maxLeverage.val
  deleverage : ∀ terms, t.deleverage = some terms →
    0 ≤ terms.insuranceThreshold.toInt ∧ terms.insuranceThreshold.toInt ≤ 10000 ∧
      1 ≤ terms.maxPositions
  funding : ∀ terms, t.funding = some terms →
    0 ≤ terms.maxRate.toInt ∧ terms.maxRate.toInt ≤ 10000

/-- Checked terms are within all bounds but that of the leverage cap. -/
theorem MarketTerms.Checked.withinBounds_iff {t : MarketTerms} (h : t.Checked) :
    t.WithinBounds ↔ ∀ cap, t.margin.map (·.maxLeverage) = some cap → 1 ≤ cap.val := by
  constructor
  · intro hbounds cap hcap
    obtain ⟨tier, htier, rfl⟩ := Option.map_eq_some_iff.1 hcap
    exact hbounds.leverage tier htier
  · intro hcaps
    exact {
      margins := fun tier htier => MarginTier.defect?_eq_none.1 (h.margin tier htier)
      leverage := fun tier htier => hcaps tier.maxLeverage (by rw [htier, Option.map_some])
      deleverage := fun terms hterms =>
        DeleverageTerms.defect?_eq_none.1 (h.deleverage terms hterms)
      funding := fun terms hterms => FundingTerms.defect?_eq_none.1 (h.funding terms hterms) }

namespace House

variable {h : House}

/-! ### Leverage caps -/

/-- The leverage cap that a call gives a market, if it gives one. -/
def Call.cap? (market : MarketId) : Call → Option Leverage
  | configureMargin _ other tier => if market = other then some tier.maxLeverage else none
  | _ => none

theorem cap_revise (market : MarketId) (call : Call) (t : MarketTerms) :
    (call.revise market t).margin.map (·.maxLeverage) =
      (call.cap? market).or (t.margin.map (·.maxLeverage)) := by
  cases call with
  | configureMargin caller other tier =>
    unfold Call.revise Call.cap?
    by_cases hmarket : market = other
    · simp only [if_pos hmarket, Option.map_some, Option.some_or]
    · simp only [if_neg hmarket, Option.none_or]
  | setMarketActive caller other active =>
    unfold Call.revise
    by_cases hmarket : market = other
    · simp only [if_pos hmarket, Option.map_map]
      rfl
    · simp only [if_neg hmarket]
      rfl
  | configureDeleverage | toggleDeleverage | configureFunding =>
    unfold Call.revise
    dsimp only
    split <;> rfl
  | _ => rfl

/-- The leverage cap that a market was last given: by a call, or else by its listing. -/
def lastCap? (setup : Setup) (calls : List Call) (market : MarketId) : Option Leverage :=
  (calls.reverse.findSome? (·.cap? market)).or
    ((setup.listing? market).map (·.margin.maxLeverage))

theorem cap_foldl (market : MarketId) (calls : List Call) (t : MarketTerms) :
    (calls.foldl (fun t call => call.revise market t) t).margin.map (·.maxLeverage) =
      (calls.reverse.findSome? (·.cap? market)).or (t.margin.map (·.maxLeverage)) := by
  induction calls generalizing t with
  | nil => rfl
  | cons call calls ih =>
    rw [List.foldl_cons, ih, cap_revise, List.reverse_cons, List.findSome?_append, Option.or_assoc]
    congr 2
    rw [List.findSome?_singleton]

/-- **The bounds of every market.**  Build a house from any setup, such as one that a text holds,
and make any calls of it.  What it then shows of a market is within all bounds just where the
leverage cap that the market was given last, by an accepted call or by the setup, is at least
one. -/
theorem run_within_bounds_iff {setup : Setup} {roles : Roles} {prices : PriceBook}
    {safeguards : Safeguards} {start : House} {calls : List Call}
    (hbuilt : ofSetup setup roles prices safeguards = .ok start)
    (hrun : start.run calls = .ok h) (market : MarketId) :
    (h.termsOf market).WithinBounds ↔
      ∀ cap, lastCap? setup (start.accepted calls) market = some cap → 1 ≤ cap.val := by
  have hcap : (h.termsOf market).margin.map (·.maxLeverage) =
      lastCap? setup (start.accepted calls) market := by
    rw [(termsOf_run hrun).2, cap_foldl, (termsOf_ofSetup hbuilt market).2, lastCap?]
    cases setup.listing? market <;> rfl
  rw [(checked_run hbuilt hrun market).withinBounds_iff, hcap]

/-- A setup of one market in few words, for a leverage cap to be filled in. -/
def sampleText (cap : String) : String :=
  "[[10,10],[[1,\"A\",[500,1000," ++ cap ++ ",true],[100,50,0,true],[true,28800,300]]]]"

/-- The cap is lowered to three, and what is switched is switched. -/
def sampleChanges : List Call :=
  [.configureMargin ⟨9⟩ ⟨1⟩ { MarginTier.standard with maxLeverage := ⟨3⟩ },
    .setMarketActive ⟨9⟩ ⟨1⟩ false, .toggleDeleverage ⟨9⟩ ⟨1⟩]

theorem run_within_bounds_lowered :
    ∃ setup start h, Setup.ofText (sampleText "20") = .ok setup ∧
      ofSetup setup sampleHouse.roles .empty (.clear 0) = .ok start ∧
      start.run sampleChanges = .ok h ∧
      lastCap? setup (start.accepted sampleChanges) ⟨1⟩ = some ⟨3⟩ ∧
      (h.termsOf ⟨1⟩).WithinBounds := by
  obtain ⟨setup, htext, htest⟩ := exists_of_succeedsWith
    (fun setup => succeedsWith (fun start : House =>
        lastCap? setup (start.accepted sampleChanges) ⟨1⟩ = some ⟨3⟩ ∧
        succeedsWith (fun _ => true) (start.run sampleChanges) = true)
      (ofSetup setup sampleHouse.roles .empty (.clear 0)))
    (x := Setup.ofText (sampleText "20")) (by decide +kernel)
  obtain ⟨start, hbuilt, htest⟩ := exists_of_succeedsWith _ htest
  obtain ⟨hcap, htest⟩ := of_decide_eq_true htest
  obtain ⟨h, hrun, -⟩ := exists_of_succeedsWith _ htest
  refine ⟨setup, start, h, htext, hbuilt, hrun, hcap,
    (run_within_bounds_iff hbuilt hrun ⟨1⟩).2 fun cap hlast => ?_⟩
  rw [hcap, Option.some.injEq] at hlast
  subst hlast
  decide

/-- A text can ask for a leverage cap of zero: it is read, it passes the check, and the market is
installed. -/
theorem run_out_of_bounds :
    ∃ setup start, Setup.ofText (sampleText "0") = .ok setup ∧
      ofSetup setup sampleHouse.roles .empty (.clear 0) = .ok start ∧
      start.run [] = .ok start ∧
      (start.termsOf ⟨1⟩).margin.map (·.maxLeverage) = some ⟨0⟩ ∧
      ¬ (start.termsOf ⟨1⟩).WithinBounds := by
  obtain ⟨setup, htext, htest⟩ := exists_of_succeedsWith
    (fun setup => succeedsWith (fun start : House =>
        (start.termsOf ⟨1⟩).margin.map (·.maxLeverage) = some ⟨0⟩)
      (ofSetup setup sampleHouse.roles .empty (.clear 0)))
    (x := Setup.ofText (sampleText "0")) (by decide +kernel)
  obtain ⟨start, hbuilt, hseen⟩ := exists_of_succeedsWith _ htest
  have hcap := of_decide_eq_true hseen
  refine ⟨setup, start, htext, hbuilt, rfl, hcap, fun hbounds => ?_⟩
  obtain ⟨tier, htier, hzero⟩ := Option.map_eq_some_iff.1 hcap
  have hleverage := hbounds.leverage tier htier
  rw [hzero] at hleverage
  exact absurd hleverage (by decide)

end House

end Clearing
