import Clearing.Proofs.Deleverage.Arrivals
import Clearing.Proofs.Deleverage.Heeding
import Clearing.Proofs.Ledger.Marking

/-!
A market that is marked again.

Marking reads of a position all but its gain, and its gain is what it writes.  It writes the same
positions each time, and the portfolios of the same owners.  So the second of two markings leaves
what it would have left without the first, at whatever prices.  At the same price and time it leaves
what is there, and the queue hears what it has heard before.

Main statement: `refreshMarket_again`.
-/

namespace Clearing

namespace Ledger

variable {l mid next : Ledger} {ids : List PositionId} {market : MarketId} {mark mark' : Price}
  {now now' : Instant} {marked marked' : List Marked} {a b : Posted (List PositionId)}

/-! ### What is written twice -/

/-- Writing the same positions anew leaves nothing of what was written before. -/
theorem records_records
    (hids : marked'.map (·.entry.position.id) = marked.map (·.entry.position.id))
    (hnodup : (marked.map (·.entry.position.id)).Nodup) (l : Ledger) :
    marked'.foldl (fun l m => l.record m.entry) (marked.foldl (fun l m => l.record m.entry) l)
      = marked'.foldl (fun l m => l.record m.entry) l := by
  have hentries : (marked'.foldl (fun l m => l.record m.entry)
      (marked.foldl (fun l m => l.record m.entry) l)).entries
        = (marked'.foldl (fun l m => l.record m.entry) l).entries := by
    refine Table.ext_get? fun id => ?_
    have hnodup' : (marked'.map (·.entry.position.id)).Nodup := by rwa [hids]
    rw [get?_entries_records hnodup', get?_entries_records hnodup']
    cases hfind' : marked'.find? (·.entry.position.id = id) with
    | some m => rfl
    | none =>
      -- A number that is not among the later ones is not among the earlier ones either.
      have hfind : marked.find? (·.entry.position.id = id) = none := by
        rw [List.find?_eq_none] at hfind' ⊢
        intro m hm heq
        have hmem : id ∈ marked'.map (·.entry.position.id) := by
          rw [hids]
          exact List.mem_map.2 ⟨m, hm, of_decide_eq_true heq⟩
        obtain ⟨m', hm', heq'⟩ := List.mem_map.1 hmem
        exact hfind' m' hm' (decide_eq_true heq')
      rw [get?_entries_records hnodup, hfind]
  rw [records_eq marked', records_eq marked' l, hentries, records_eq marked l]

/-- The owners of marked positions are those of the positions that were there. -/
theorem mem_owners_marked (hstored : l.Stored) (hmarked : l.Marking mark now ids marked)
    {owner : AccountId} :
    owner ∈ marked.map (·.entry.position.owner) ↔
      ∃ id ∈ ids, (l.position? id).map Position.owner = some owner := by
  have howner : ∀ m ∈ marked,
      (l.position? m.entry.position.id).map Position.owner = some m.entry.position.owner :=
    fun m hm => map_position?_marked hmarked hstored Position.owner (fun _ _ => rfl) hm
  rw [← ids_marked hmarked hstored, List.mem_map]
  simp only [List.mem_map, exists_exists_and_eq_and]
  refine exists_congr fun m => and_congr_right fun hm => ?_
  rw [howner m hm, Option.some.injEq]

/-- **What marked positions leave does not depend on an earlier marking of the same ones.** -/
theorem MarksEach.again_iff (hstored : l.Stored) (hnodup : ids.Nodup)
    (hmarked : l.Marking mark now ids marked) (hmarked' : l.Marking mark' now' ids marked')
    (h : MarksEach l marked now mid) :
    MarksEach mid marked' now' next ↔ MarksEach l marked' now' next := by
  have hids := ids_marked hmarked hstored
  have hids' := ids_marked hmarked' hstored
  have hwritten : ∀ portfolios,
      marked'.foldl (fun l m => record l m.entry) { mid with portfolios := portfolios }
        = marked'.foldl (fun l m => record l m.entry) { l with portfolios := portfolios } := by
    intro portfolios
    rw [h.withPortfolios, records_records (hids'.trans hids.symm) (hids ▸ hnodup)]
  have hleft : ∀ owner, owner ∉ marked'.map (·.entry.position.owner) →
      mid.portfolio? owner = l.portfolio? owner := by
    intro owner hnot
    refine h.left owner fun hmem => hnot ?_
    exact (mem_owners_marked hstored hmarked').2 ((mem_owners_marked hstored hmarked).1 hmem)
  constructor
  · rintro ⟨hpositions, hrebuilt, hkept⟩
    exact ⟨hpositions.trans (hwritten _), hrebuilt,
      fun owner hnot => (hkept owner hnot).trans (hleft owner hnot)⟩
  · rintro ⟨hpositions, hrebuilt, hkept⟩
    exact ⟨hpositions.trans (hwritten _).symm, hrebuilt,
      fun owner hnot => (hkept owner hnot).trans (hleft owner hnot).symm⟩

/-! ### One market -/

/-- Marking a market marks its positions, and that is all there is to it. -/
theorem refreshMarket_eq_ok_iff (hindexed : l.WellIndexed) :
    l.refreshMarket market mark now = .ok a ↔
      ∃ marked, l.Marking mark now (l.idsIn market) marked ∧ MarksEach l marked now a.ledger ∧
        a.result = (marked.filter (·.entry.liquidatable)).map (·.entry.position.id) ∧
        a.notices = marked.map (·.notice) := by
  refine ⟨refreshMarket_marksEach hindexed, ?_⟩
  rintro ⟨marked, hmarked, heach, hresult, hnotices⟩
  rw [heach.refreshMarket hindexed hmarked, ← hresult, ← hnotices]

/-- Positions are marked as they would have been before the market was marked. -/
theorem marking_iff (hstored : l.Stored) (ha : l.refreshMarket market mark now = .ok a) :
    a.ledger.Marking mark' now' ids marked ↔ l.Marking mark' now' ids marked := by
  have hfound : ∀ id m, (∃ p, a.ledger.position? id = some p ∧ markAt p mark' now' = .ok m) ↔
      ∃ p, l.position? id = some p ∧ markAt p mark' now' = .ok m := by
    intro id m
    have hsame := map_position?_refreshMarket hstored (markAt · mark' now') (fun _ _ => rfl) ha id
    rw [← Option.map_eq_some_iff, ← Option.map_eq_some_iff, hsame]
  unfold Marking
  simp only [hfound]

/-- **A second marking comes out as it would have without the first**, or neither comes to
anything. -/
theorem refreshMarket_after_iff (hindexed : l.WellIndexed)
    (ha : l.refreshMarket market mark now = .ok a) :
    a.ledger.refreshMarket market mark' now' = .ok b ↔
      l.refreshMarket market mark' now' = .ok b := by
  have hsame := (refreshMarket_restates hindexed.stored ha).sameIndices
  have hids : a.ledger.idsIn market = l.idsIn market := by
    unfold idsIn
    rw [hsame.byMarket]
  obtain ⟨marked, hmarked, heach, -, -⟩ := refreshMarket_marksEach hindexed ha
  rw [refreshMarket_eq_ok_iff (hindexed.of_sameIndices hsame), refreshMarket_eq_ok_iff hindexed,
    hids]
  refine exists_congr fun marked' => ?_
  rw [marking_iff hindexed.stored ha]
  refine and_congr_right fun hmarked' => and_congr_left fun _ => ?_
  exact heach.again_iff hindexed.stored (Table.keys_nodup _) hmarked hmarked'

/-- The notices of a marking are about different positions. -/
theorem nodup_notices (hindexed : l.WellIndexed) (ha : l.refreshMarket market mark now = .ok a) :
    (a.notices.map (·.position)).Nodup := by
  obtain ⟨marked, hmarked, -, -, hnotices⟩ := refreshMarket_marksEach hindexed ha
  have hpositions : a.notices.map (·.position) = marked.map (·.entry.position.id) := by
    rw [hnotices, List.map_map]
    refine List.map_congr_left fun m hm => ?_
    obtain ⟨-, -, -, -, hnotice⟩ := exists_of_mem_marked hmarked hm
    exact Notice.position_of_position hnotice
  rw [hpositions]
  exact nodup_marked hindexed.stored hmarked

/-- **Marking is memoryless.**  In every ledger that a run reaches, a market that is marked again
comes out as if it had not been marked before: with the same ledger, the same positions that can be
liquidated and the same notices.  Marked again at the same price and time it is left as it is, and
so is every queue that a run reaches: it stays as the first marking left it, places, ties and
arrivals included. -/
theorem refreshMarket_again {first : Nat} {ops : List Operation}
    {replies : List (Except Refusal Reply)} (hl : (startingAt first).run ops = .ok (replies, l))
    {maxHistory : Nat} {given : List DeleverageQueue.Operation}
    {answers : List (Except DeleverageError DeleverageQueue.Reply)} {q : DeleverageQueue}
    (hq : (DeleverageQueue.empty maxHistory).run given = .ok (answers, q))
    (ha : l.refreshMarket market mark now = .ok a) :
    (∀ mark' now' b, a.ledger.refreshMarket market mark' now' = .ok b ↔
      l.refreshMarket market mark' now' = .ok b) ∧
      a.ledger.refreshMarket market mark now = .ok a ∧
      (q.notifyAll a.notices).notifyAll a.notices = q.notifyAll a.notices := by
  have hindexed : l.WellIndexed := (WellIndexed.startingAt first).run hl
  refine ⟨fun mark' now' b => refreshMarket_after_iff hindexed ha,
    (refreshMarket_after_iff hindexed ha).2 ha, ?_⟩
  exact DeleverageQueue.notifyAll_again (fun lane => ⟨_, DeleverageQueue.run_lists hq lane⟩)
    (nodup_notices hindexed ha)

/-- Of the two shorts of `sampleMarket` the later one is known to the queue first. -/
def sampleKnown : List DeleverageQueue.Operation :=
  [.update { DeleverageQueue.sampleCandidate 4 .one with side := .short },
    .update { DeleverageQueue.sampleCandidate 3 (.ofUInt32 5) with side := .short }]

/-- At 45 the shorts gain alike, and the one that was known first stays ahead of the other; a
marking at 55 in between leaves nothing behind. -/
theorem refreshMarket_again_ties :
    ∃ replies l answers q a b,
      ((startingAt 1).run sampleMarket = .ok (replies, l) ∧
        (DeleverageQueue.empty 10).run sampleKnown = .ok (answers, q) ∧
        l.refreshMarket ⟨1⟩ (.ofUInt32 45) .epoch = .ok a ∧
        l.refreshMarket ⟨1⟩ (.ofUInt32 55) .epoch = .ok b) ∧
      (a.result = [⟨1⟩] ∧ a.ledger ≠ b.ledger ∧
        ((q.notifyAll a.notices).candidates ⟨⟨1⟩, .short⟩).map (·.position) = [⟨4⟩, ⟨3⟩]) ∧
      b.ledger.refreshMarket ⟨1⟩ (.ofUInt32 45) .epoch = .ok a ∧
      a.ledger.refreshMarket ⟨1⟩ (.ofUInt32 45) .epoch = .ok a ∧
      (q.notifyAll a.notices).notifyAll a.notices = q.notifyAll a.notices := by
  obtain ⟨⟨replies, l⟩, hl, htest⟩ := exists_of_succeedsWith
    (fun r : List (Except Refusal Reply) × Ledger =>
      succeedsWith (fun s : List (Except DeleverageError DeleverageQueue.Reply) ×
          DeleverageQueue =>
        succeedsWith (fun a => succeedsWith (fun b =>
            a.result = [⟨1⟩] ∧ a.ledger ≠ b.ledger ∧
              ((s.2.notifyAll a.notices).candidates ⟨⟨1⟩, .short⟩).map (·.position) = [⟨4⟩, ⟨3⟩])
            (r.2.refreshMarket ⟨1⟩ (.ofUInt32 55) .epoch))
          (r.2.refreshMarket ⟨1⟩ (.ofUInt32 45) .epoch))
        ((DeleverageQueue.empty 10).run sampleKnown))
    (x := (startingAt 1).run sampleMarket) (by decide +kernel)
  obtain ⟨⟨answers, q⟩, hq, htest⟩ := exists_of_succeedsWith _ htest
  obtain ⟨a, ha, htest⟩ := exists_of_succeedsWith _ htest
  obtain ⟨b, hb, hseen⟩ := exists_of_succeedsWith _ htest
  obtain ⟨hafter, -, -⟩ := refreshMarket_again hl hq hb
  obtain ⟨-, hsame, hqueue⟩ := refreshMarket_again hl hq ha
  exact ⟨replies, l, answers, q, a, b, ⟨hl, hq, ha, hb⟩, of_decide_eq_true hseen,
    (hafter _ _ a).2 ha, hsame, hqueue⟩

end Ledger

end Clearing
