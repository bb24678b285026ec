import Clearing.Proofs.Ledger.Assessments

/-!
What the figures of a position were last worked out from.

The liquidation price, the gain and the liquidation flag of a position are kept, not computed when
they are asked for.  Each is renewed by operations of its own: the price where the position is
assessed, gain and flag also where it is marked, and none of them by funding.  Main statement:
`run_figures`.  After any run, the price is the one under the tier of the last assessment, gain and
flag are those at the price of the last mark, and whatever does not mark the position leaves all
three as they are.

The proof follows the run with the list of what was carried out so far.  `Becomes` says of one
operation which figures it renewed, and what it did not renew was right before it.
-/

namespace Clearing

namespace Position

variable {p p' : Position} {tier : MarginTier}

/-! ### What figures depend on -/

theorem PricedBy.of_terms (hterms : p'.terms = p.terms) (h : p.PricedBy tier) :
    p'.PricedBy tier := by
  simp only [terms, Prod.mk.injEq] at hterms
  obtain ⟨hsame, hsize, hentry, hcollateral, hprice⟩ := hterms
  unfold PricedBy
  rw [side_eq_of_identity hsame, hsize, hentry, hcollateral, hprice]
  exact h

theorem pnlAt_eq_of_terms (hterms : p'.terms = p.terms) (mark : Price) :
    p'.pnlAt mark = p.pnlAt mark := by
  simp only [terms, Prod.mk.injEq] at hterms
  obtain ⟨hsame, hsize, hentry, -, -⟩ := hterms
  unfold pnlAt
  rw [side_eq_of_identity hsame, hsize, hentry]

theorem isLiquidatableAt_eq_of_terms (hterms : p'.terms = p.terms) (mark : Price) :
    p'.isLiquidatableAt mark = p.isLiquidatableAt mark := by
  simp only [terms, Prod.mk.injEq] at hterms
  obtain ⟨hsame, -, -, -, hprice⟩ := hterms
  unfold isLiquidatableAt
  rw [side_eq_of_identity hsame, hprice]

end Position

namespace Ledger

/-- The three figures that are kept with a position. -/
def Entry.figures (e : Entry) : Decimal × Amount × Bool :=
  (e.position.liquidationPrice, e.position.unrealizedPnl, e.liquidatable)

theorem Entry.MarkedAt.of_same {e e' : Entry} {mark : Price}
    (hterms : e'.position.terms = e.position.terms)
    (hgain : e'.position.unrealizedPnl = e.position.unrealizedPnl)
    (hflag : e'.liquidatable = e.liquidatable) (h : e.MarkedAt mark) : e'.MarkedAt mark := by
  obtain ⟨⟨pnl, hpnl, hunits⟩, hflagged⟩ := h
  refine ⟨⟨pnl, ?_, ?_⟩, ?_⟩
  · rw [Position.pnlAt_eq_of_terms hterms, hpnl]
  · rw [hgain, hunits]
  · rw [hflag, Position.isLiquidatableAt_eq_of_terms hterms, hflagged]

/-! ### What was carried out -/

/-- The operations of a run that were carried out, each with its reply. -/
def carriedOut (ops : List Operation) (replies : List (Except Refusal Reply)) :
    List (Operation × Reply) :=
  (ops.zip replies).filterMap fun
    | (op, .ok reply) => some (op, reply)
    | (_, .error _) => none

/-- The schedule and the price by which a position was last assessed. -/
def lastAssessment? (history : List (Operation × Reply)) (id : PositionId) :
    Option (MarginSchedule × Price) :=
  history.reverse.findSome? fun step => step.1.assessment? step.2 id

/-- The price at which a position of a market was last marked. -/
def lastMark? (history : List (Operation × Reply)) (id : PositionId) (market : MarketId) :
    Option Price :=
  history.reverse.findSome? fun step => step.1.markOf? step.2 id market

variable {history : List (Operation × Reply)} {op : Operation} {reply : Reply} {id : PositionId}
  {market : MarketId} {l next : Ledger} {e : Entry}

theorem lastAssessment?_append :
    lastAssessment? (history ++ [(op, reply)]) id =
      (op.assessment? reply id).or (lastAssessment? history id) := by
  unfold lastAssessment?
  rw [List.reverse_append, List.reverse_singleton, List.singleton_append, List.findSome?_cons]
  dsimp only
  cases op.assessment? reply id <;> rfl

theorem lastMark?_append :
    lastMark? (history ++ [(op, reply)]) id market =
      (op.markOf? reply id market).or (lastMark? history id market) := by
  unfold lastMark?
  rw [List.reverse_append, List.reverse_singleton, List.singleton_append, List.findSome?_cons]
  dsimp only
  cases op.markOf? reply id market <;> rfl

theorem carriedOut_cons (op : Operation) (ops : List Operation) (reply : Except Refusal Reply)
    (replies : List (Except Refusal Reply)) :
    carriedOut (op :: ops) (reply :: replies)
      = carriedOut [op] [reply] ++ carriedOut ops replies := by
  unfold carriedOut
  rw [List.zip_cons_cons, ← List.singleton_append, List.filterMap_append]
  rfl

/-! ### Figures over a run -/

/-- The figures of an entry are the ones that follow from what was carried out. -/
structure Entry.FiguredBy (history : List (Operation × Reply)) (id : PositionId) (e : Entry) :
    Prop where
  priced : ∃ schedule price tier, lastAssessment? history id = some (schedule, price) ∧
    schedule.tier? e.position.market = some tier ∧ e.position.PricedBy tier
  marked : ∃ mark, lastMark? history id e.position.market = some mark ∧ e.MarkedAt mark

/-- One operation renews figures, or leaves them as they were. -/
theorem Becomes.figuredBy (h : l.Becomes op reply e)
    (hbefore : ∀ before, l.entries.get? e.position.id = some before →
      before.FiguredBy history e.position.id) :
    e.FiguredBy (history ++ [(op, reply)]) e.position.id := by
  cases h with
  | @assessed schedule price tier hassess hlisted hpriced hmarked =>
    have hmark := Operation.markOf?_of_assessment hassess e.position.market
    refine ⟨⟨schedule, price, tier, ?_, hlisted, hpriced⟩, price, ?_, hmarked⟩
    · rw [lastAssessment?_append, hassess, Option.some_or]
    · rw [lastMark?_append, hmark, Option.some_or]
  | @marked latest before hassess hmark hheld hterms hmarked =>
    obtain ⟨⟨schedule, price, tier, hlast, hlisted, hpriced⟩, -⟩ := hbefore _ hheld
    have hmarket := Position.market_eq_of_identity (congrArg Prod.fst hterms)
    refine ⟨⟨schedule, price, tier, ?_, hmarket ▸ hlisted, hpriced.of_terms hterms⟩, latest,
      ?_, hmarked⟩
    · rw [lastAssessment?_append, hassess, Option.none_or, hlast]
    · rw [lastMark?_append, hmark, Option.some_or]
  | kept hmark hheld hterms hgain hflag =>
    have hassess := Operation.assessment?_of_unmarked hmark
    obtain ⟨⟨schedule, price, tier, hlast, hlisted, hpriced⟩, mark, hlastMark, hmarked⟩ :=
      hbefore _ hheld
    have hmarket := Position.market_eq_of_identity (congrArg Prod.fst hterms)
    refine ⟨⟨schedule, price, tier, ?_, hmarket ▸ hlisted, hpriced.of_terms hterms⟩, mark, ?_,
      hmarked.of_same hterms hgain hflag⟩
    · rw [lastAssessment?_append, hassess, Option.none_or, hlast]
    · rw [lastMark?_append, hmark, Option.none_or, hmarket, hlastMark]

/-- The figures of all entries are the ones that follow from what was carried out. -/
def Figured (history : List (Operation × Reply)) (l : Ledger) : Prop :=
  ∀ id e, l.entries.get? id = some e → e.FiguredBy history id

theorem Figured.perform (h : l.Figured history) (hindexed : l.WellIndexed)
    {reply : Except Refusal Reply} (hperform : l.perform op = .ok (reply, next)) :
    next.Figured (history ++ carriedOut [op] [reply]) := by
  have hnext := hindexed.perform hperform
  rcases orStay_eq_ok.1 hperform with ⟨r, rfl, hanswer⟩ | ⟨cause, rfl, -, rfl⟩
  · intro id e he
    obtain rfl : e.position.id = id := hnext.stored _ _ (position?_of_entry he)
    exact (answer_becomes hindexed hanswer hnext.stored he).figuredBy fun before hheld =>
      h _ before hheld
  · have hnothing : carriedOut [op] [.error cause] = [] := rfl
    rwa [hnothing, List.append_nil]

theorem Figured.run (h : l.Figured history) (hindexed : l.WellIndexed) {ops : List Operation}
    {replies : List (Except Refusal Reply)} {last : Ledger}
    (hrun : l.run ops = .ok (replies, last)) :
    last.Figured (history ++ carriedOut ops replies) := by
  induction ops generalizing l history replies with
  | nil =>
    cases hrun
    rwa [show carriedOut [] [] = [] from rfl, List.append_nil]
  | cons op ops ih =>
    obtain ⟨reply, mid, rest, hperform, hrest, rfl⟩ := inTurn_cons_eq_ok.1 hrun
    rw [carriedOut_cons, ← List.append_assoc]
    exact ih (h.perform hindexed hperform) (hindexed.perform hperform) hrest

/-- What does not mark a position leaves its figures alone. -/
theorem figures_of_unmarked (hindexed : l.WellIndexed) (he : l.entries.get? id = some e)
    {reply : Except Refusal Reply} (hperform : l.perform op = .ok (reply, next))
    (hmark : ∀ r, reply = .ok r → op.markOf? r id e.position.market = none) {e' : Entry}
    (he' : next.entries.get? id = some e') : e'.figures = e.figures := by
  have hnext := hindexed.perform hperform
  rcases orStay_eq_ok.1 hperform with ⟨r, rfl, hanswer⟩ | ⟨_, -, -, rfl⟩
  · obtain rfl : e'.position.id = id := hnext.stored _ _ (position?_of_entry he')
    have hbecomes := answer_becomes hindexed hanswer hnext.stored he'
    have hunmarked := hmark r rfl
    rw [← Position.market_eq_of_identity (hbecomes.identity hindexed he)] at hunmarked
    cases hbecomes with
    | kept _ hheld hterms hgain hflag =>
      rw [he, Option.some.injEq] at hheld
      subst hheld
      simp only [Position.terms, Prod.mk.injEq] at hterms
      unfold Entry.figures
      rw [hterms.2.2.2.2, hgain, hflag]
    | assessed hassess =>
      rw [Operation.markOf?_of_assessment hassess] at hunmarked
      cases hunmarked
    | marked _ hmarked =>
      rw [hunmarked] at hmarked
      cases hmarked
  · rw [he, Option.some.injEq] at he'
    rw [he']

theorem Figured.startingAt (first : Nat) : (startingAt first).Figured [] := by
  intro id e he
  cases he

/-- **The figures of every position are up to date.**  After any run, the liquidation price is the
one that size, entry price and collateral have under the tier of the last assessment; gain and
flag are those at the price of the last mark; and an operation that does not mark the position,
such as a booking of funding or one on another position, leaves all three as they were. -/
theorem run_figures {first : Nat} {ops : List Operation} {replies : List (Except Refusal Reply)}
    (h : (startingAt first).run ops = .ok (replies, l)) (he : l.entries.get? id = some e) :
    e.FiguredBy (carriedOut ops replies) id ∧
      ∀ op reply next e', l.perform op = .ok (reply, next) →
        (∀ r, reply = .ok r → op.markOf? r id e.position.market = none) →
        next.entries.get? id = some e' → e'.figures = e.figures := by
  have hindexed := (WellIndexed.startingAt first).run h
  have hfigured := (Figured.startingAt first).run (.startingAt first) h
  rw [List.nil_append] at hfigured
  exact ⟨hfigured id e he, fun op reply next e' hperform hmark he' =>
    figures_of_unmarked hindexed he hperform hmark he'⟩

/-- One position is added to, its market marked at 90 and funding booked on it, while another is
reduced by force at 95. -/
def sampleMarks : List Operation :=
  [.openPosition (sampleOrder ⟨1⟩ .long (.ofUInt32 2)) sampleSchedule .epoch,
    .openPosition (sampleOrder ⟨2⟩ .short (.ofUInt32 2)) sampleSchedule .epoch,
    .modify ⟨1⟩ (.ofUInt32 2) .zero (.ofUInt32 110) sampleSchedule .epoch,
    .refreshMarket ⟨1⟩ (.ofUInt32 90) .epoch,
    .forceReduce ⟨2⟩ .one (.ofUInt32 95) sampleSchedule .epoch,
    .applyFunding [(⟨1⟩, .one)] .zero .epoch]

/-- The first position is marked at 90 still. -/
theorem run_figures_funded :
    ∃ replies l e, (startingAt 1).run sampleMarks = .ok (replies, l) ∧
      l.entries.get? ⟨1⟩ = some e ∧
      (lastMark? (carriedOut sampleMarks replies) ⟨1⟩ ⟨1⟩ = some (.ofUInt32 90) ∧
        e.position.accumulatedFunding = .one) ∧
      e.FiguredBy (carriedOut sampleMarks replies) ⟨1⟩ ∧
      ∀ op reply next e', l.perform op = .ok (reply, next) →
        (∀ r, reply = .ok r → op.markOf? r ⟨1⟩ e.position.market = none) →
        next.entries.get? ⟨1⟩ = some e' → e'.figures = e.figures := by
  obtain ⟨⟨replies, l⟩, h, htest⟩ := exists_of_succeedsWith
    (fun r : List (Except Refusal Reply) × Ledger =>
      lastMark? (carriedOut sampleMarks r.1) ⟨1⟩ ⟨1⟩ = some (.ofUInt32 90) ∧
      (r.2.entries.get? ⟨1⟩).map (·.position.accumulatedFunding) = some .one)
    (x := (startingAt 1).run sampleMarks) (by decide +kernel)
  obtain ⟨hmark, hfunded⟩ := of_decide_eq_true htest
  obtain ⟨e, he, hfunded⟩ := Option.map_eq_some_iff.1 hfunded
  exact ⟨replies, l, e, h, he, ⟨hmark, hfunded⟩, run_figures h he⟩

end Ledger

end Clearing
