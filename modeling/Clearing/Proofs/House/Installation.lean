import Clearing.House.Basic
import Clearing.Proofs.Failure
import Clearing.Proofs.Table

/-!
What a house shows of the markets in its setup.

A setup that passes its check can be installed: no component finds a defect in a listing that the
check did not find, and no listing is written over by a later one, since a market is listed once.
So a new house shows every listed market on the terms of its listing and no other market at all
(`ofSetup_shows`).  The terms of deleveraging are the exception.  Installing them makes them
active, so a listing cannot start with deleveraging switched off (`ofSetup_activates`).

The fold over the listings carries what the house shows of one market: an installation changes
it for the market installed and for no other (`exists_install`).
-/

namespace Clearing

/-- What is known of a market: each of its terms, as far as it has them. -/
structure MarketTerms where
  margin : Option MarginTier
  deleverage : Option DeleverageTerms
  funding : Option FundingTerms
  name : Option String
deriving DecidableEq

/-- Nothing is known of a market. -/
def MarketTerms.unknown : MarketTerms := ⟨none, none, none, none⟩

namespace Listing

/-- The terms in a listing. -/
def terms (m : Listing) : MarketTerms :=
  ⟨some m.margin, some m.deleverage, some m.funding, some m.name⟩

/-- The listing with deleveraging switched on. -/
def activated (m : Listing) : Listing :=
  { m with deleverage := { m.deleverage with active := true } }

theorem validate_eq_ok {m : Listing} :
    m.validate = .ok () ↔ isBlankText m.name = false ∧ m.margin.validate = .ok () ∧
      m.deleverage.validate = .ok () ∧ m.funding.validate = .ok () := by
  unfold validate
  rw [ite_throw_eq_ok, check_bind_eq_ok, check_bind_eq_ok, mapError_eq_ok, mapError_eq_ok,
    mapError_eq_ok, Bool.not_eq_true]

end Listing

namespace Setup

theorem validateMarkets_eq_ok {seen : List MarketId} {markets : List Listing} :
    validateMarkets seen markets = .ok () ↔
      (∀ m ∈ markets, m.market ∉ seen ∧ m.validate = .ok ()) ∧ (markets.map (·.market)).Nodup := by
  induction markets generalizing seen with
  | nil => simp [validateMarkets]
  | cons m rest ih =>
    rw [validateMarkets, ite_throw_eq_ok, check_bind_eq_ok, ih, List.forall_mem_cons,
      List.map_cons, List.nodup_cons]
    simp only [List.mem_cons, List.mem_map, not_or, not_exists, not_and]
    constructor
    · rintro ⟨hunseen, hvalid, hrest, hnodup⟩
      exact ⟨⟨⟨hunseen, hvalid⟩, fun x hx => ⟨(hrest x hx).1.2, (hrest x hx).2⟩⟩,
        fun x hx => (hrest x hx).1.1, hnodup⟩
    · rintro ⟨⟨⟨hunseen, hvalid⟩, hrest⟩, hother, hnodup⟩
      exact ⟨hunseen, hvalid, fun x hx => ⟨⟨hother x hx, (hrest x hx).1⟩, (hrest x hx).2⟩, hnodup⟩

theorem validate_eq_ok {s : Setup} (h : s.validate = .ok ()) :
    (∀ m ∈ s.markets, m.validate = .ok ()) ∧ (s.markets.map (·.market)).Nodup := by
  unfold validate at h
  rw [ite_throw_eq_ok, ite_throw_eq_ok, validateMarkets_eq_ok] at h
  exact ⟨fun m hm => (h.2.2.1 m hm).2, h.2.2.2⟩

end Setup

namespace House

/-- What a house shows of a market. -/
def termsOf (h : House) (market : MarketId) : MarketTerms where
  margin := h.schedule.tier? market
  deleverage := h.queue.terms? market
  funding := h.funding.terms? market
  name := h.name? market

/-- A listing without a defect can be installed, and changes what is shown of its market only. -/
theorem exists_install (h : House) {m : Listing} (hvalid : m.validate = .ok ()) :
    ∃ next, h.install m = .ok next ∧ ∀ market,
      next.termsOf market = if market = m.market then m.activated.terms else h.termsOf market := by
  obtain ⟨-, hmargin, hdeleverage, hfunding⟩ := Listing.validate_eq_ok.1 hvalid
  unfold install MarginSchedule.install DeleverageQueue.configure FundingBook.configure
  rw [hmargin, hdeleverage, hfunding]
  refine ⟨_, rfl, fun market => ?_⟩
  unfold termsOf MarginSchedule.tier? DeleverageQueue.terms? FundingBook.terms? name?
  simp only [Table.get?_insert_eq]
  by_cases hmarket : market = m.market
  · simp only [if_pos hmarket]
    rfl
  · simp only [if_neg hmarket]

/-- Listings of different markets can be installed one after the other, and in the end each
market is shown on the terms of its own. -/
theorem exists_foldlM_install {markets : List Listing} (hvalid : ∀ m ∈ markets, m.validate = .ok ())
    (hnodup : (markets.map (·.market)).Nodup) (h : House) :
    ∃ next, markets.foldlM install h = .ok next ∧
      (∀ m ∈ markets, next.termsOf m.market = m.activated.terms) ∧
      ∀ market, (∀ m ∈ markets, m.market ≠ market) → next.termsOf market = h.termsOf market := by
  induction markets generalizing h with
  | nil => exact ⟨h, rfl, nofun, fun _ _ => rfl⟩
  | cons m rest ih =>
    rw [List.map_cons, List.nodup_cons, List.mem_map] at hnodup
    rw [List.forall_mem_cons] at hvalid
    obtain ⟨mid, hmid, hshown⟩ := h.exists_install hvalid.1
    obtain ⟨next, hnext, hlisted, hother⟩ := ih hvalid.2 hnodup.2 mid
    refine ⟨next, ?_, List.forall_mem_cons.2 ⟨?_, hlisted⟩, fun market hmarket => ?_⟩
    · rw [List.foldlM_cons, bind_eq_ok]
      exact ⟨mid, hmid, hnext⟩
    · -- No later listing is of the market installed first.
      have hlast : ∀ other ∈ rest, other.market ≠ m.market :=
        fun other hmem heq => hnodup.1 ⟨other, hmem, heq⟩
      rw [hother m.market hlast, hshown, if_pos rfl]
    · rw [List.forall_mem_cons] at hmarket
      rw [hother market hmarket.2, hshown, if_neg hmarket.1.symm]

/-- **What a new house shows.**  A house can be built from every setup that passes its check.  It
shows every listed market on the terms of its listing, with deleveraging active, and it shows
nothing of any other market. -/
theorem ofSetup_shows {setup : Setup} (hvalid : setup.validate = .ok ()) (roles : Roles)
    (prices : PriceBook) (safeguards : Safeguards) :
    ∃ h, ofSetup setup roles prices safeguards = .ok h ∧
      (∀ m ∈ setup.markets, h.termsOf m.market = m.activated.terms) ∧
      ∀ market, (∀ m ∈ setup.markets, m.market ≠ market) → h.termsOf market = .unknown := by
  obtain ⟨hlistings, hnodup⟩ := Setup.validate_eq_ok hvalid
  obtain ⟨h, hbuilt, hlisted, hother⟩ :=
    exists_foldlM_install hlistings hnodup (empty setup.limits roles prices safeguards)
  refine ⟨h, ?_, hlisted, hother⟩
  unfold ofSetup
  rw [hvalid]
  exact hbuilt

/-- One market that is switched off, and its deleveraging too. -/
def sampleDormant : Listing :=
  { Listing.standard ⟨1⟩ "A" with
    margin := { MarginTier.standard with active := false }
    deleverage := { DeleverageTerms.standard with active := false } }

/-- The market stays off; the setup is good and the house is built. -/
theorem ofSetup_shows_dormant :
    (⟨.standard, [sampleDormant]⟩ : Setup).validate = .ok () ∧
    ∃ h, ofSetup ⟨.standard, [sampleDormant]⟩ .empty .empty (.clear 0) = .ok h ∧
      (∀ m ∈ [sampleDormant], h.termsOf m.market = m.activated.terms) ∧
      ∀ market, (∀ m ∈ [sampleDormant], m.market ≠ market) → h.termsOf market = .unknown :=
  have hvalid : (⟨.standard, [sampleDormant]⟩ : Setup).validate = .ok () := by decide +kernel
  ⟨hvalid, ofSetup_shows hvalid .empty .empty (.clear 0)⟩

/-- Deleveraging does not stay off: the terms shown are not those of the listing. -/
theorem ofSetup_activates :
    (⟨.standard, [sampleDormant]⟩ : Setup).validate = .ok () ∧
    ∃ h, ofSetup ⟨.standard, [sampleDormant]⟩ .empty .empty (.clear 0) = .ok h ∧
      sampleDormant.deleverage.active = false ∧
      (h.queue.terms? sampleDormant.market).map (·.active) = some true ∧
      h.termsOf sampleDormant.market ≠ sampleDormant.terms := by
  refine ⟨by decide +kernel, ?_⟩
  obtain ⟨h, hbuilt, htest⟩ := exists_of_succeedsWith
    (fun h : House => (h.queue.terms? sampleDormant.market).map (·.active) = some true ∧
      h.termsOf sampleDormant.market ≠ sampleDormant.terms)
    (x := ofSetup ⟨.standard, [sampleDormant]⟩ .empty .empty (.clear 0)) (by decide +kernel)
  exact ⟨h, hbuilt, rfl, of_decide_eq_true htest⟩

end House

end Clearing
