import Clearing.Proofs.Deleverage.Lanes
import Clearing.Proofs.Ledger.Isolation
import Clearing.Proofs.Ledger.Marking

/-!
Two markets marked in either order.

Marking a market reads nothing of another one but the gains that its owners have there: these go
into their portfolios, and so the portfolios that are written first are not those that are written
second.  Yet each owner ends up with the portfolio of what they hold when both markets are marked,
whichever came last, and to the queue each market tells of other lanes.  So it makes no difference
which market is marked first: `refreshMarket_comm`.
-/

namespace Clearing

namespace Ledger

variable {l next next' : Ledger} {market : MarketId} {mark : Price} {now : Instant}
  {marked marked' : List Marked}

/-! ### The order of writing -/

theorem record_comm (l : Ledger) {e e' : Entry} (h : e.position.id ≠ e'.position.id) :
    (l.record e).record e' = (l.record e').record e := by
  unfold record
  rw [Table.insert_comm _ _ _ h]

theorem records_perm (hperm : marked.Perm marked')
    (hnodup : (marked.map (·.entry.position.id)).Nodup) (l : Ledger) :
    marked.foldl (fun l m => l.record m.entry) l
      = marked'.foldl (fun l m => l.record m.entry) l := by
  refine hperm.foldl_eq' (fun m hm m' hm' l => ?_) l
  by_cases hid : m.entry.position.id = m'.entry.position.id
  · rw [List.inj_on_of_nodup_map hnodup hm hm' hid]
  · exact record_comm l hid

/-- Marked positions leave one ledger, whatever their order. -/
theorem MarksEach.unique (hindexed : l.WellIndexed)
    (hnodup : (marked.map (·.entry.position.id)).Nodup) (hperm : marked.Perm marked')
    (h : MarksEach l marked now next) (h' : MarksEach l marked' now next') : next = next' := by
  have howners : ∀ owner, owner ∈ marked.map (·.entry.position.owner) ↔
      owner ∈ marked'.map (·.entry.position.owner) :=
    fun owner => (hperm.map _).mem_iff
  have hpositions : ∀ owner, next.positionsOf owner = next'.positionsOf owner := by
    intro owner
    rw [h.positions, positionsOf_records hindexed hnodup, h'.positions,
      ← records_perm hperm hnodup, positionsOf_records hindexed hnodup]
  have hportfolios : next.portfolios = next'.portfolios := by
    refine Table.ext_get? fun owner => ?_
    by_cases hmem : owner ∈ marked.map (·.entry.position.owner)
    · obtain ⟨p, hp, hfound⟩ := h.rebuilt owner hmem
      obtain ⟨p', hp', hfound'⟩ := h'.rebuilt owner ((howners owner).1 hmem)
      rw [hpositions, hp'] at hp
      cases hp
      exact hfound.trans hfound'.symm
    · have hmem' : owner ∉ marked'.map (·.entry.position.owner) := (howners owner).not.1 hmem
      exact (h.left owner hmem).trans (h'.left owner hmem').symm
  rw [h.positions, h'.positions, hportfolios, records_perm hperm hnodup]

/-! ### Another market -/

/-- What is marked of a market depends on its positions alone. -/
theorem mapM_markAt {ids : List PositionId} (h : l.Marking mark now ids marked) :
    (ids.filterMap l.position?).mapM (markAt · mark now) = .ok marked := by
  rw [mapM_eq_ok]
  induction h with
  | nil => exact .nil
  | cons hm _ ih =>
    obtain ⟨p, hp, hmark⟩ := hm
    rw [List.filterMap_cons_some hp]
    exact .cons hmark ih

/-! ### Both markets -/

variable {m₁ m₂ : MarketId} {p₁ p₂ : Price} {a b a' b' : Posted (List PositionId)}

/-- What two markings come to, as they are worked out from the ledger before both: what is marked of
either market is marked of `l`, and the ledger is left that marking all of these leaves. -/
structure MarksBoth (l : Ledger) (m₁ m₂ : MarketId) (p₁ p₂ : Price) (now : Instant)
    (a b : Posted (List PositionId)) (marked₁ marked₂ : List Marked) : Prop where
  first : (l.positionsIn m₁).mapM (markAt · p₁ now) = .ok marked₁
  second : (l.positionsIn m₂).mapM (markAt · p₂ now) = .ok marked₂
  distinct : ((marked₁ ++ marked₂).map (·.entry.position.id)).Nodup
  each : MarksEach l (marked₁ ++ marked₂) now b.ledger
  flaggedFirst : a.result = (marked₁.filter (·.entry.liquidatable)).map (·.entry.position.id)
  flaggedSecond : b.result = (marked₂.filter (·.entry.liquidatable)).map (·.entry.position.id)
  toldFirst : a.notices = marked₁.map (·.notice)
  toldSecond : b.notices = marked₂.map (·.notice)

theorem refreshMarket_marksBoth (hindexed : l.WellIndexed) (hne : m₁ ≠ m₂)
    (ha : l.refreshMarket m₁ p₁ now = .ok a) (hb : a.ledger.refreshMarket m₂ p₂ now = .ok b) :
    ∃ marked₁ marked₂, MarksBoth l m₁ m₂ p₁ p₂ now a b marked₁ marked₂ := by
  have hsame := (refreshMarket_restates hindexed.stored ha).sameIndices
  have hmid : a.ledger.WellIndexed := hindexed.of_sameIndices hsame
  obtain ⟨marked₁, hmarked₁, heach₁, hflagged₁, htold₁⟩ := refreshMarket_marksEach hindexed ha
  obtain ⟨marked₂, hmarked₂, heach₂, hflagged₂, htold₂⟩ := refreshMarket_marksEach hmid hb
  have hids : a.ledger.idsIn m₂ = l.idsIn m₂ := by
    unfold idsIn
    rw [hsame.byMarket]
  refine ⟨marked₁, marked₂, mapM_markAt hmarked₁, ?_, ?_,
    heach₁.append hmid hmarked₂ (Table.keys_nodup _) heach₂, hflagged₁, hflagged₂, htold₁, htold₂⟩
  · -- The positions of the second market are those that were there before the first was marked.
    have hsecond := mapM_markAt hmarked₂
    change (a.ledger.positionsIn m₂).mapM _ = _ at hsecond
    rwa [(refreshMarket_sameIn hindexed ha hne).positionsIn hindexed hmid] at hsecond
  · rw [List.map_append, ids_marked hmarked₁ hindexed.stored, ids_marked hmarked₂ hmid.stored, hids]
    refine List.nodup_append.2 ⟨Table.keys_nodup _, Table.keys_nodup _, ?_⟩
    rintro id hfirst _ hsecond rfl
    obtain ⟨p, hp, hmarket⟩ := (hindexed.listed m₁ id).1 hfirst
    obtain ⟨p', hp', hmarket'⟩ := (hindexed.listed m₂ id).1 hsecond
    rw [hp] at hp'
    cases hp'
    exact hne (hmarket.symm.trans hmarket')

/-- **Two markets can be marked in either order.**  Where both orders succeed, they leave the same
ledger, with the portfolios of those who have positions in both, and the same queue, with the same
order of arrival; and each market has the same positions that can be liquidated. -/
theorem refreshMarket_comm {first : Nat} {ops : List Operation}
    {replies : List (Except Refusal Reply)} (hl : (startingAt first).run ops = .ok (replies, l))
    (q : DeleverageQueue) (hne : m₁ ≠ m₂)
    (ha : l.refreshMarket m₁ p₁ now = .ok a) (hb : a.ledger.refreshMarket m₂ p₂ now = .ok b)
    (ha' : l.refreshMarket m₂ p₂ now = .ok a') (hb' : a'.ledger.refreshMarket m₁ p₁ now = .ok b') :
    b.ledger = b'.ledger ∧
      (q.notifyAll a.notices).notifyAll b.notices
        = (q.notifyAll a'.notices).notifyAll b'.notices ∧
      a.result = b'.result ∧ b.result = a'.result := by
  have hindexed : l.WellIndexed := (WellIndexed.startingAt first).run hl
  obtain ⟨marked₁, marked₂, h⟩ := refreshMarket_marksBoth hindexed hne ha hb
  obtain ⟨marked₂', marked₁', h'⟩ := refreshMarket_marksBoth hindexed hne.symm ha' hb'
  cases h.first.symm.trans h'.second
  cases h.second.symm.trans h'.first
  refine ⟨h.each.unique hindexed h.distinct List.perm_append_comm h'.each, ?_,
    h.flaggedFirst.trans h'.flaggedSecond.symm, h.flaggedSecond.trans h'.flaggedFirst.symm⟩
  rw [show b.notices = a'.notices from h.toldSecond.trans h'.toldFirst.symm,
    show b'.notices = a.notices from h'.toldSecond.trans h.toldFirst.symm]
  refine q.notifyAll_comm fun notice hnotice notice' hnotice' hlane => hne ?_
  have hfirst := market_of_refreshed hindexed ha notice hnotice
  have hsecond := market_of_refreshed hindexed ha' notice' hnotice'
  rw [← hfirst, hlane, hsecond]

/-- Owner 1 has a position in each of two markets, and owner 2 has one in the first. -/
def sampleOwners : List Operation :=
  [.openPosition (sampleOrder ⟨1⟩ .long .one) twoMarkets .epoch,
    .openPosition { sampleOrder ⟨1⟩ .short .one with market := ⟨2⟩ } twoMarkets .epoch,
    .openPosition (sampleOrder ⟨2⟩ .long .one) twoMarkets .epoch]

/-- The gain of owner 1 is written twice in either order, and is not the same after the first. -/
theorem refreshMarket_comm_shared :
    ∃ replies l a b a' b', (startingAt 1).run sampleOwners = .ok (replies, l) ∧
      l.refreshMarket ⟨1⟩ (.ofUInt32 110) .epoch = .ok a ∧
      a.ledger.refreshMarket ⟨2⟩ (.ofUInt32 95) .epoch = .ok b ∧
      l.refreshMarket ⟨2⟩ (.ofUInt32 95) .epoch = .ok a' ∧
      a'.ledger.refreshMarket ⟨1⟩ (.ofUInt32 110) .epoch = .ok b' ∧
      ((a.ledger.portfolio? ⟨1⟩).map (·.netUnrealizedPnl) = some (.ofUInt32 10) ∧
        (a'.ledger.portfolio? ⟨1⟩).map (·.netUnrealizedPnl) = some (.ofUInt32 5) ∧
        (b.ledger.portfolio? ⟨1⟩).map (·.netUnrealizedPnl) = some (.ofUInt32 15)) ∧
      b.ledger = b'.ledger ∧
      ((DeleverageQueue.empty 10).notifyAll a.notices).notifyAll b.notices
        = ((DeleverageQueue.empty 10).notifyAll a'.notices).notifyAll b'.notices := by
  obtain ⟨⟨replies, l⟩, hl, htest⟩ := exists_of_succeedsWith
    (fun r : List (Except Refusal Reply) × Ledger =>
      succeedsWith (fun a => succeedsWith (fun b =>
          (a.ledger.portfolio? ⟨1⟩).map (·.netUnrealizedPnl) = some (.ofUInt32 10) ∧
            (b.ledger.portfolio? ⟨1⟩).map (·.netUnrealizedPnl) = some (.ofUInt32 15))
          (a.ledger.refreshMarket ⟨2⟩ (.ofUInt32 95) .epoch))
        (r.2.refreshMarket ⟨1⟩ (.ofUInt32 110) .epoch) ∧
      succeedsWith (fun a' => succeedsWith (fun _ =>
          (a'.ledger.portfolio? ⟨1⟩).map (·.netUnrealizedPnl) = some (.ofUInt32 5))
          (a'.ledger.refreshMarket ⟨1⟩ (.ofUInt32 110) .epoch))
        (r.2.refreshMarket ⟨2⟩ (.ofUInt32 95) .epoch))
    (x := (startingAt 1).run sampleOwners) (by decide +kernel)
  obtain ⟨hfirst, hsecond⟩ := of_decide_eq_true htest
  obtain ⟨a, ha, hfirst⟩ := exists_of_succeedsWith _ hfirst
  obtain ⟨b, hb, hgains⟩ := exists_of_succeedsWith _ hfirst
  obtain ⟨a', ha', hsecond⟩ := exists_of_succeedsWith _ hsecond
  obtain ⟨b', hb', hgain⟩ := exists_of_succeedsWith _ hsecond
  obtain ⟨hgain₁, hgain₂⟩ := of_decide_eq_true hgains
  obtain ⟨hledger, hqueue, -⟩ :=
    refreshMarket_comm hl (.empty 10) (by decide) ha hb ha' hb'
  exact ⟨replies, l, a, b, a', b', hl, ha, hb, ha', hb', ⟨hgain₁, of_decide_eq_true hgain, hgain₂⟩,
    hledger, hqueue⟩

end Ledger

end Clearing
