import Clearing.Proofs.Deleverage.Execution
import Clearing.Proofs.Funding.Settlement
import Clearing.Proofs.House.Calls
import Clearing.Proofs.House.Installation
import Clearing.Proofs.Ledger.Margins

/-!
The terms of every market over a run.

Terms come into a house with its setup and with the calls of the risk manager, and both ways lead
through the same checks.  `revise` says what an accepted call makes of the terms of a market, and
`answer_revises` that it does.  So what a house shows of a market after a run is what it showed at
first, revised by the accepted calls in turn (`termsOf_run`), and none of it has a defect.
-/

namespace Clearing

/-! ### Checks -/

/-- None of the terms has a defect. -/
structure MarketTerms.Checked (t : MarketTerms) : Prop where
  margin : ∀ tier, t.margin = some tier → tier.defect? = none
  deleverage : ∀ terms, t.deleverage = some terms → terms.defect? = none
  funding : ∀ terms, t.funding = some terms → terms.defect? = none

theorem MarketTerms.Checked.unknown : MarketTerms.unknown.Checked :=
  ⟨nofun, nofun, nofun⟩

theorem Listing.checked {m : Listing} (h : m.validate = .ok ()) : m.activated.terms.Checked := by
  obtain ⟨-, hmargin, hdeleverage, hfunding⟩ := Listing.validate_eq_ok.1 h
  refine ⟨?_, ?_, ?_⟩
  · rintro tier ⟨⟩
    exact MarginTier.validate_eq_ok.1 hmargin
  · -- Whether terms are active is not checked.
    rintro terms ⟨⟩
    exact DeleverageTerms.validate_eq_ok.1 hdeleverage
  · rintro terms ⟨⟩
    exact FundingTerms.validate_eq_ok.1 hfunding

/-! ### The queue keeps its terms -/

namespace DeleverageQueue

variable {q next : DeleverageQueue} {market : MarketId}

theorem terms_notify (q : DeleverageQueue) (notice : Notice) :
    (q.notify notice).terms = q.terms := by
  cases notice with
  | gaining c =>
    show (q.update c).terms = q.terms
    unfold update
    split
    · rfl
    · exact terms_remove q c.lane c.position
  | left market position side => exact terms_remove q ⟨market, side⟩ position

theorem terms_notifyAll (q : DeleverageQueue) (notices : List Notice) :
    (q.notifyAll notices).terms = q.terms :=
  List.foldlRecOn (motive := fun mid : DeleverageQueue => mid.terms = q.terms) notices notify rfl
    fun mid hmid notice _ => (terms_notify mid notice).trans hmid

end DeleverageQueue

/-! ### What a call makes of terms -/

namespace House

/-- The terms that a call gives have no defect. -/
def Call.Checked : Call → Prop
  | configureMargin _ _ tier => tier.defect? = none
  | configureDeleverage _ _ insuranceThreshold maxPositions gracePeriod =>
    (⟨insuranceThreshold, maxPositions, gracePeriod, true⟩ : DeleverageTerms).defect? = none
  | configureFunding _ _ terms => terms.defect? = none
  | _ => True

/-- What an accepted call makes of the terms of a market. -/
def Call.revise (market : MarketId) (t : MarketTerms) : Call → MarketTerms
  | configureMargin _ other tier =>
    if market = other then { t with margin := some tier } else t
  | setMarketActive _ other active =>
    if market = other then
      { t with margin := t.margin.map fun tier => { tier with active := active } }
    else t
  | configureDeleverage _ other insuranceThreshold maxPositions gracePeriod =>
    if market = other then
      { t with deleverage := some ⟨insuranceThreshold, maxPositions, gracePeriod, true⟩ }
    else t
  | toggleDeleverage _ other =>
    if market = other then
      { t with deleverage := t.deleverage.map fun terms => { terms with active := !terms.active } }
    else t
  | configureFunding _ other terms =>
    if market = other then { t with funding := some terms } else t
  | _ => t

variable {h next : House} {caller : AccountId} {market : MarketId}

theorem termsOf_post {α : Type} (h : House) (other : MarketId) (posted : Ledger.Posted α)
    (events : List Payload) : (h.post other posted events).termsOf market = h.termsOf market := by
  unfold post record termsOf DeleverageQueue.terms?
  dsimp only
  rw [DeleverageQueue.terms_notifyAll]
  rfl

/-! Trade and upkeep leave the terms of every market alone. -/

theorem termsOf_openPosition {order : Order} {id : PositionId}
    (hx : h.openPosition caller order = .ok (id, next)) :
    next.termsOf market = h.termsOf market := by
  unfold openPosition at hx
  simp only [bind_eq_ok, inTermsOf_eq_ok, pure_eq_ok, Prod.mk.injEq] at hx
  obtain ⟨-, -, -, -, posted, -, -, rfl⟩ := hx
  exact termsOf_post ..

theorem termsOf_modifyPosition {id : PositionId} {sizeDelta : Decimal}
    {collateralDelta realized : Amount}
    (hx : h.modifyPosition caller id sizeDelta collateralDelta = .ok (realized, next)) :
    next.termsOf market = h.termsOf market := by
  unfold modifyPosition at hx
  simp only [bind_eq_ok, inTermsOf_eq_ok, pure_eq_ok, Prod.mk.injEq] at hx
  obtain ⟨-, -, before, -, -, -, price, -, posted, -, -, rfl⟩ := hx
  exact termsOf_post ..

theorem termsOf_closePosition {id : PositionId} {realized : Amount}
    (hx : h.closePosition caller id = .ok (realized, next)) :
    next.termsOf market = h.termsOf market := by
  unfold closePosition at hx
  simp only [bind_eq_ok, inTermsOf_eq_ok, pure_eq_ok, Prod.mk.injEq] at hx
  obtain ⟨-, -, p, -, -, -, price, -, posted, -, -, rfl⟩ := hx
  exact termsOf_post ..

theorem termsOf_forceClose {id : PositionId} {price : Price} {isLiquidation : Bool}
    {realized : Amount} (hx : h.forceClose caller id price isLiquidation = .ok (realized, next)) :
    next.termsOf market = h.termsOf market := by
  unfold forceClose at hx
  simp only [bind_eq_ok, inTermsOf_eq_ok, pure_eq_ok, Prod.mk.injEq] at hx
  obtain ⟨-, -, p, -, -, -, posted, -, -, rfl⟩ := hx
  exact termsOf_post ..

theorem termsOf_executeDeleverage {shortfall : Shortfall} {coverage : Coverage}
    (hx : h.executeDeleverage caller shortfall = .ok (coverage, next)) :
    next.termsOf market = h.termsOf market := by
  unfold executeDeleverage at hx
  simp only [bind_eq_ok, inTermsOf_eq_ok, pure_eq_ok, Prod.mk.injEq] at hx
  obtain ⟨-, -, -, -, ⟨coverage', queue, ledger⟩, hexecuted, -, rfl⟩ := hx
  unfold record termsOf DeleverageQueue.terms?
  dsimp only
  rw [DeleverageQueue.terms_execute hexecuted]
  rfl

theorem termsOf_refreshMarket {other : MarketId} {refresh : Refresh}
    (hx : h.refreshMarket caller other = .ok (refresh, next)) :
    next.termsOf market = h.termsOf market := by
  unfold refreshMarket at hx
  simp only [bind_eq_ok, refusing_eq_ok, pure_eq_ok, Prod.mk.injEq] at hx
  obtain ⟨-, -, -, -, price, -, posted, -, -, rfl⟩ := hx
  exact termsOf_post ..

theorem termsOf_settleFunding {other : MarketId} {settlement : FundingSettlement}
    (hx : h.settleFunding caller other = .ok (settlement, next)) :
    next.termsOf market = h.termsOf market := by
  unfold settleFunding at hx
  simp only [bind_eq_ok, inTermsOf_eq_ok, pure_eq_ok, Prod.mk.injEq] at hx
  obtain ⟨-, -, -, -, ⟨settled, funding, ledger⟩, hsettled, -, rfl⟩ := hx
  unfold record termsOf
  dsimp only
  rw [(FundingBook.settle_settled hsettled).terms?_eq]
  rfl

/-! The risk manager changes one of the terms of one market. -/

theorem configureMargin_revises {other : MarketId} {tier : MarginTier}
    (hx : h.configureMargin caller other tier = .ok ((), next)) :
    tier.defect? = none ∧
      next.termsOf market = (Call.configureMargin caller other tier).revise market
        (h.termsOf market) := by
  unfold configureMargin at hx
  simp only [bind_eq_ok, refusing_eq_ok, pure_eq_ok, Prod.mk.injEq] at hx
  obtain ⟨-, -, ⟨previous, schedule⟩, hinstalled, -, rfl⟩ := hx
  obtain ⟨hvalid, rfl⟩ := MarginSchedule.install_eq_ok hinstalled
  refine ⟨hvalid, ?_⟩
  unfold record termsOf MarginSchedule.tier? Call.revise
  dsimp only
  rw [Table.get?_insert_eq]
  split <;> rfl

theorem setMarketActive_revises {other : MarketId} {active : Bool}
    (hx : h.setMarketActive caller other active = .ok ((), next)) :
    next.termsOf market = (Call.setMarketActive caller other active).revise market
      (h.termsOf market) := by
  unfold setMarketActive at hx
  simp only [bind_eq_ok, refusing_eq_ok, pure_eq_ok, Prod.mk.injEq] at hx
  obtain ⟨-, -, schedule, hswitched, -, rfl⟩ := hx
  obtain ⟨tier, htier, rfl⟩ := MarginSchedule.setActive_eq_ok hswitched
  unfold record termsOf MarginSchedule.tier? Call.revise at *
  dsimp only
  rw [Table.get?_insert_eq]
  split
  · rename_i hmarket
    rw [hmarket, htier]
    rfl
  · rfl

theorem configureDeleverage_revises {other : MarketId} {insuranceThreshold : Bps}
    {maxPositions : UInt32} {gracePeriod : UInt64}
    (hx : h.configureDeleverage caller other insuranceThreshold maxPositions gracePeriod
      = .ok ((), next)) :
    (⟨insuranceThreshold, maxPositions, gracePeriod, true⟩ : DeleverageTerms).defect? = none ∧
      next.termsOf market =
        (Call.configureDeleverage caller other insuranceThreshold maxPositions gracePeriod).revise
          market (h.termsOf market) := by
  unfold configureDeleverage at hx
  simp only [bind_eq_ok, refusing_eq_ok, pure_eq_ok, Prod.mk.injEq] at hx
  obtain ⟨-, -, ⟨previous, queue⟩, hqueue, -, rfl⟩ := hx
  obtain ⟨hvalid, rfl⟩ := DeleverageQueue.configure_eq_ok hqueue
  refine ⟨hvalid, ?_⟩
  unfold record termsOf DeleverageQueue.terms? Call.revise
  dsimp only
  rw [Table.get?_insert_eq]
  split <;> rfl

theorem toggleDeleverage_revises {other : MarketId} {active : Bool}
    (hx : h.toggleDeleverage caller other = .ok (active, next)) :
    next.termsOf market = (Call.toggleDeleverage caller other).revise market
      (h.termsOf market) := by
  unfold toggleDeleverage at hx
  simp only [bind_eq_ok, refusing_eq_ok, pure_eq_ok, Prod.mk.injEq] at hx
  obtain ⟨-, -, ⟨_, queue⟩, hqueue, -, rfl⟩ := hx
  obtain ⟨terms, hterms, rfl⟩ := DeleverageQueue.toggle_eq_ok hqueue
  unfold record termsOf DeleverageQueue.terms? Call.revise at *
  dsimp only
  rw [Table.get?_insert_eq]
  split
  · rename_i hmarket
    rw [hmarket, hterms]
    rfl
  · rfl

theorem configureFunding_revises {other : MarketId} {terms : FundingTerms}
    (hx : h.configureFunding caller other terms = .ok ((), next)) :
    terms.defect? = none ∧
      next.termsOf market = (Call.configureFunding caller other terms).revise market
        (h.termsOf market) := by
  unfold configureFunding at hx
  simp only [bind_eq_ok, refusing_eq_ok, pure_eq_ok, Prod.mk.injEq] at hx
  obtain ⟨-, -, ⟨previous, funding⟩, hfunding, -, rfl⟩ := hx
  obtain ⟨hvalid, -, hterms, -⟩ := FundingBook.configure_eq_ok hfunding
  refine ⟨hvalid, ?_⟩
  unfold termsOf Call.revise
  dsimp only
  rw [hterms]
  split <;> rfl

/-- An accepted call gives terms without a defect, and what is shown of a market is revised. -/
theorem answer_revises {call : Call} {reply : Reply} (hx : h.answer call = .ok (reply, next)) :
    call.Checked ∧ next.termsOf market = call.revise market (h.termsOf market) := by
  cases call with
  | setTime now =>
    cases hx
    exact ⟨trivial, rfl⟩
  | advanceTime millis =>
    cases hx
    exact ⟨trivial, rfl⟩
  | replaceRoles roles =>
    cases hx
    exact ⟨trivial, rfl⟩
  | replacePrices prices =>
    cases hx
    exact ⟨trivial, rfl⟩
  | replaceSafeguards safeguards =>
    cases hx
    exact ⟨trivial, rfl⟩
  | openPosition caller order =>
    obtain ⟨id, hcall, rfl⟩ := giving_eq_ok hx
    exact ⟨trivial, termsOf_openPosition hcall⟩
  | modifyPosition caller id sizeDelta collateralDelta =>
    obtain ⟨realized, hcall, rfl⟩ := giving_eq_ok hx
    exact ⟨trivial, termsOf_modifyPosition hcall⟩
  | closePosition caller id =>
    obtain ⟨realized, hcall, rfl⟩ := giving_eq_ok hx
    exact ⟨trivial, termsOf_closePosition hcall⟩
  | forceClose caller id price isLiquidation =>
    obtain ⟨realized, hcall, rfl⟩ := giving_eq_ok hx
    exact ⟨trivial, termsOf_forceClose hcall⟩
  | executeDeleverage caller shortfall =>
    obtain ⟨coverage, hcall, rfl⟩ := giving_eq_ok hx
    exact ⟨trivial, termsOf_executeDeleverage hcall⟩
  | refreshMarket caller other =>
    obtain ⟨refresh, hcall, rfl⟩ := giving_eq_ok hx
    exact ⟨trivial, termsOf_refreshMarket hcall⟩
  | settleFunding caller other =>
    obtain ⟨settlement, hcall, rfl⟩ := giving_eq_ok hx
    exact ⟨trivial, termsOf_settleFunding hcall⟩
  | configureMargin caller other tier =>
    change answer.giving (fun _ => .done) (h.configureMargin caller other tier) = _ at hx
    obtain ⟨_, hcall, rfl⟩ := giving_eq_ok hx
    exact configureMargin_revises hcall
  | setMarketActive caller other active =>
    change answer.giving (fun _ => .done) (h.setMarketActive caller other active) = _ at hx
    obtain ⟨_, hcall, rfl⟩ := giving_eq_ok hx
    exact ⟨trivial, setMarketActive_revises hcall⟩
  | configureDeleverage caller other insuranceThreshold maxPositions gracePeriod =>
    change answer.giving (fun _ => .done)
      (h.configureDeleverage caller other insuranceThreshold maxPositions gracePeriod) = _ at hx
    obtain ⟨_, hcall, rfl⟩ := giving_eq_ok hx
    exact configureDeleverage_revises hcall
  | toggleDeleverage caller other =>
    obtain ⟨active, hcall, rfl⟩ := giving_eq_ok hx
    exact ⟨trivial, toggleDeleverage_revises hcall⟩
  | configureFunding caller other terms =>
    change answer.giving (fun _ => .done) (h.configureFunding caller other terms) = _ at hx
    obtain ⟨_, hcall, rfl⟩ := giving_eq_ok hx
    exact configureFunding_revises hcall

/-! ### Runs -/

/-- The calls of a run that were accepted. -/
def accepted : House → List Call → List Call
  | _, [] => []
  | h, call :: calls =>
    match h.answer call with
    | .ok (_, next) => call :: accepted next calls
    | .error (.refused _) => accepted h calls
    | .error (.stopped _) => []

theorem accepted_of_ok {call : Call} {reply : Reply}
    (hanswer : h.answer call = .ok (reply, next)) (calls : List Call) :
    h.accepted (call :: calls) = call :: next.accepted calls := by
  simp only [accepted, hanswer]

theorem accepted_of_refused {call : Call} {cause : HouseError}
    (hanswer : h.answer call = .error (.refused cause)) (calls : List Call) :
    h.accepted (call :: calls) = h.accepted calls := by
  simp only [accepted, hanswer]

/-- What a house shows after a run is what it showed at first, revised by the accepted calls. -/
theorem termsOf_run {start : House} {calls : List Call} (hrun : start.run calls = .ok h) :
    (∀ call ∈ start.accepted calls, call.Checked) ∧
      h.termsOf market = (start.accepted calls).foldl (fun t call => call.revise market t)
        (start.termsOf market) := by
  induction calls generalizing start with
  | nil =>
    cases hrun
    exact ⟨nofun, rfl⟩
  | cons call calls ih =>
    unfold run at hrun
    rw [List.foldlM_cons, bind_eq_ok] at hrun
    obtain ⟨mid, hcall, hrun⟩ := hrun
    obtain ⟨⟨answered, next⟩, hperform, rfl⟩ := map_eq_ok.1 hcall
    obtain ⟨hchecked, hshown⟩ := ih hrun
    rcases orStay_eq_ok.1 hperform with ⟨reply, -, hanswer⟩ | ⟨cause, -, hanswer, rfl⟩
    · obtain ⟨hcallChecked, hrevised⟩ : call.Checked ∧ next.termsOf market = _ :=
        answer_revises hanswer
      rw [accepted_of_ok hanswer, List.forall_mem_cons, List.foldl_cons, ← hrevised]
      exact ⟨⟨hcallChecked, hchecked⟩, hshown⟩
    · rw [accepted_of_refused hanswer]
      exact ⟨hchecked, hshown⟩

theorem Call.Checked.revise {call : Call} {t : MarketTerms} (hcall : call.Checked)
    (ht : t.Checked) : (call.revise market t).Checked := by
  cases call with
  | configureMargin caller other tier =>
    show (if market = other then _ else t).Checked
    split
    · refine ⟨?_, ht.deleverage, ht.funding⟩
      rintro _ ⟨⟩
      exact hcall
    · exact ht
  | setMarketActive caller other active =>
    show (if market = other then _ else t).Checked
    split
    · refine ⟨fun tier htier => ?_, ht.deleverage, ht.funding⟩
      obtain ⟨before, hbefore, rfl⟩ := Option.map_eq_some_iff.1 htier
      exact ht.margin before hbefore
    · exact ht
  | configureDeleverage caller other insuranceThreshold maxPositions gracePeriod =>
    show (if market = other then _ else t).Checked
    split
    · refine ⟨ht.margin, ?_, ht.funding⟩
      rintro _ ⟨⟩
      exact hcall
    · exact ht
  | toggleDeleverage caller other =>
    show (if market = other then _ else t).Checked
    split
    · refine ⟨ht.margin, fun terms hterms => ?_, ht.funding⟩
      obtain ⟨before, hbefore, rfl⟩ := Option.map_eq_some_iff.1 hterms
      exact ht.deleverage before hbefore
    · exact ht
  | configureFunding caller other terms =>
    show (if market = other then _ else t).Checked
    split
    · refine ⟨ht.margin, ht.deleverage, ?_⟩
      rintro _ ⟨⟩
      exact hcall
    · exact ht
  | _ => exact ht

/-- What a new house shows of a market: its listing, with deleveraging active, or nothing. -/
theorem termsOf_ofSetup {setup : Setup} {roles : Roles} {prices : PriceBook}
    {safeguards : Safeguards} (hbuilt : ofSetup setup roles prices safeguards = .ok h)
    (market : MarketId) :
    (h.termsOf market).Checked ∧ h.termsOf market =
      ((setup.listing? market).map fun m => m.activated.terms).getD .unknown := by
  unfold ofSetup at hbuilt
  rw [check_bind_eq_ok] at hbuilt
  obtain ⟨hvalid, hbuilt⟩ := hbuilt
  obtain ⟨hlistings, hnodup⟩ := Setup.validate_eq_ok hvalid
  obtain ⟨built, hfold, hlisted, hother⟩ :=
    exists_foldlM_install hlistings hnodup (empty setup.limits roles prices safeguards)
  obtain rfl : built = h := Except.ok.inj (hfold.symm.trans hbuilt)
  unfold Setup.listing?
  cases hfind : setup.markets.find? (·.market = market) with
  | none =>
    have hunlisted : ∀ m ∈ setup.markets, m.market ≠ market := by
      simpa using List.find?_eq_none.1 hfind
    rw [hother market hunlisted]
    exact ⟨.unknown, rfl⟩
  | some m =>
    have hmem := List.mem_of_find?_eq_some hfind
    have hmarket : m.market = market := by simpa using List.find?_some hfind
    rw [← hmarket, hlisted m hmem]
    exact ⟨Listing.checked (hlistings m hmem), rfl⟩

/-- Whatever a house shows of a market, it passed its check. -/
theorem checked_run {setup : Setup} {roles : Roles} {prices : PriceBook} {safeguards : Safeguards}
    {start : House} {calls : List Call}
    (hbuilt : ofSetup setup roles prices safeguards = .ok start)
    (hrun : start.run calls = .ok h) (market : MarketId) : (h.termsOf market).Checked := by
  obtain ⟨hchecked, hshown⟩ : _ ∧ h.termsOf market = _ := termsOf_run hrun
  rw [hshown]
  exact List.foldlRecOn (motive := MarketTerms.Checked) _ _ (termsOf_ofSetup hbuilt market).1
    fun t ht call hcall => (hchecked call hcall).revise ht

end House

end Clearing
