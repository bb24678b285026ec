import Clearing.Proofs.Ledger.Indices

/-!
Numbers and identities over a whole run.

A ledger numbers its positions in ascending order, so a number that was handed out belongs to the
past for good: it stands for the position that got it until that is closed, and for nothing
afterwards.  Main statement: `run_coherent`, which holds between any two ledgers of one run.
-/

namespace Clearing

namespace Ledger

variable {l last : Ledger}

/-! ### Numbers -/

theorem nextNumber_change {next : Ledger} (h : Change l next) : next.nextNumber = l.nextNumber := by
  have hnext : next.nextId = l.nextId := by
    cases h with
    | amended _ _ _ amends => exact amends.nextId
    | closed closes => exact closes.nextId
    | restated restates => exact restates.nextId
  unfold nextNumber
  rw [hnext]

theorem nextNumber_changes {next : Ledger} (h : Changes l next) :
    next.nextNumber = l.nextNumber := by
  induction h with
  | refl => rfl
  | tail _ hlast ih => exact (nextNumber_change hlast).trans ih

theorem openedIn_cons (reply : Except Refusal Reply) (replies : List (Except Refusal Reply)) :
    openedIn (reply :: replies) = openedIn [reply] ++ openedIn replies := by
  unfold openedIn
  rw [← List.filterMap_append, List.singleton_append]

/-- A call hands out the next number, or none. -/
theorem perform_numbers (hstored : l.Stored) {op : Operation} {reply : Except Refusal Reply}
    {next : Ledger} (h : l.perform op = .ok (reply, next)) :
    openedIn [reply] = [⟨l.nextNumber⟩] ∧ next.nextNumber = l.nextNumber + 1 ∨
      openedIn [reply] = [] ∧ next.nextNumber = l.nextNumber := by
  rcases orStay_eq_ok.1 h with ⟨r, rfl, hanswer⟩ | ⟨cause, rfl, -, rfl⟩
  · rcases answer_eq_ok hstored hanswer with ⟨p, now, notice, rfl, hopens⟩ | ⟨hreply, hchanges⟩
    · refine .inl ⟨?_, WellIndexed.nextNumber_opens hopens⟩
      rw [hopens.number]
      rfl
    · refine .inr ⟨?_, nextNumber_changes hchanges⟩
      cases r with
      | opened id => exact absurd rfl (hreply id)
      | _ => rfl
  · exact .inr ⟨rfl, rfl⟩

/-- The numbers that a run hands out ascend, from the next number of the ledger it starts at to
that of the ledger it ends with. -/
theorem run_numbers (hindexed : l.WellIndexed) {ops : List Operation}
    {replies : List (Except Refusal Reply)} (h : l.run ops = .ok (replies, last)) :
    (openedIn replies).Pairwise (fun a b => a.val < b.val) ∧
      (∀ id ∈ openedIn replies, l.nextNumber ≤ id.val ∧ id.val < last.nextNumber) ∧
      l.nextNumber ≤ last.nextNumber := by
  induction ops generalizing l replies with
  | nil =>
    cases h
    exact ⟨.nil, nofun, Nat.le_refl _⟩
  | cons op ops ih =>
    obtain ⟨reply, mid, rest, hperform, hrun, rfl⟩ := inTurn_cons_eq_ok.1 h
    obtain ⟨hascending, hbounds, hle⟩ := ih (hindexed.perform hperform) hrun
    rw [openedIn_cons]
    rcases perform_numbers hindexed.stored hperform with ⟨hopened, hnext⟩ | ⟨hopened, hnext⟩
    · rw [hopened, List.singleton_append]
      rw [hnext] at hbounds hle
      refine ⟨List.pairwise_cons.2 ⟨fun id hid => ?_, hascending⟩, fun id hid => ?_, by omega⟩
      · exact (hbounds id hid).1
      · rcases List.mem_cons.1 hid with rfl | hid
        · exact ⟨Nat.le_refl _, hle⟩
        · have := hbounds id hid
          omega
    · rw [hopened, List.nil_append]
      rw [hnext] at hbounds hle
      exact ⟨hascending, hbounds, hle⟩

/-! ### Identities -/

/-- What `next` holds under a number is what `l` held there, as far as identity goes, or new. -/
def Continues (l : Ledger) (opened : List PositionId) (next : Ledger) : Prop :=
  ∀ id p', next.position? id = some p' →
    (∃ p, l.position? id = some p ∧ p'.identity = p.identity) ∨ id ∈ opened

theorem Continues.trans {mid next : Ledger} {opened opened' : List PositionId}
    (h : Continues l opened mid) (h' : Continues mid opened' next) :
    Continues l (opened ++ opened') next := by
  intro id p' hp'
  rcases h' id p' hp' with ⟨q, hq, hsame⟩ | hid
  · rcases h id q hq with ⟨p, hp, hsame'⟩ | hid
    · exact .inl ⟨p, hp, hsame.trans hsame'⟩
    · exact .inr (List.mem_append_left _ hid)
  · exact .inr (List.mem_append_right _ hid)

theorem change_continues (hstored : l.Stored) {next : Ledger} (h : Change l next) :
    Continues l [] next := by
  intro id p' hp'
  cases h with
  | amended held same _ amends =>
    exact .inl ((amends.sameIndices hstored held same).exists_held hp')
  | closed closes =>
    rw [closes.position?] at hp'
    split at hp'
    · cases hp'
    · exact .inl ⟨p', hp', rfl⟩
  | restated restates => exact .inl (restates.sameIndices.exists_held hp')

theorem changes_continues (hindexed : l.WellIndexed) {next : Ledger} (h : Changes l next) :
    Continues l [] next := by
  have hboth : next.WellIndexed ∧ Continues l [] next := by
    induction h with
    | refl => exact ⟨hindexed, fun id p' hp' => .inl ⟨p', hp', rfl⟩⟩
    | tail _ hlast ih =>
      exact ⟨ih.1.change hlast, ih.2.trans (change_continues ih.1.stored hlast)⟩
  exact hboth.2

theorem perform_continues (hindexed : l.WellIndexed) {op : Operation}
    {reply : Except Refusal Reply} {next : Ledger} (h : l.perform op = .ok (reply, next)) :
    Continues l (openedIn [reply]) next := by
  intro id p' hp'
  rcases orStay_eq_ok.1 h with ⟨r, rfl, hanswer⟩ | ⟨_, -, -, rfl⟩
  · rcases answer_eq_ok hindexed.stored hanswer with
      ⟨p, now, notice, rfl, hopens⟩ | ⟨-, hchanges⟩
    · rw [hopens.position?] at hp'
      split at hp'
      · rename_i hid
        exact .inr (List.mem_singleton.2 hid)
      · exact .inl ⟨p', hp', rfl⟩
    · exact .inl ((changes_continues hindexed hchanges id p' hp').resolve_right nofun)
  · exact .inl ⟨p', hp', rfl⟩

theorem run_continues (hindexed : l.WellIndexed) {ops : List Operation}
    {replies : List (Except Refusal Reply)} (h : l.run ops = .ok (replies, last)) :
    Continues l (openedIn replies) last := by
  induction ops generalizing l replies with
  | nil =>
    cases h
    exact fun id p' hp' => .inl ⟨p', hp', rfl⟩
  | cons op ops ih =>
    obtain ⟨reply, mid, rest, hperform, hrun, rfl⟩ := inTurn_cons_eq_ok.1 h
    rw [openedIn_cons]
    exact (perform_continues hindexed hperform).trans (ih (hindexed.perform hperform) hrun)

/-! ### Between two ledgers of a run -/

/-- The indices hold each open position once, in its place; every view shows the same positions,
and no operation that goes by them misses one. -/
structure Agrees (l : Ledger) : Prop where
  stored : ∀ id p, l.position? id = some p → p.id = id
  byOwner : ∀ owner id, (l.idsOf owner).count id =
    if (l.position? id).map (·.owner) = some owner then 1 else 0
  byMarket : ∀ market id, (l.idsIn market).count id =
    if (l.position? id).map (·.market) = some market then 1 else 0
  inhabited : ∀ owner, l.byOwner.get? owner ≠ some []
  positionsOf : ∀ owner, l.positionsOf owner = l.positions.filter (·.owner = owner)
  positionsIn : ∀ market, l.positionsIn market = l.positions.filter (·.market = market)
  idsIn : ∀ market, l.idsIn market = (l.positionsIn market).map (·.id)
  size : l.size = l.positions.length
  refreshed : ∀ market mark now id, l.refreshMarket market mark now ≠ .error (.notFound id)
  settled : ∀ (book : FundingBook) market now id,
    book.settle market l now ≠ .error (.refused (.booking (.notFound id)))

theorem WellIndexed.agrees (h : l.WellIndexed) : l.Agrees where
  stored := h.stored
  byOwner := h.count_idsOf
  byMarket := h.count_idsIn
  inhabited := h.inhabited
  positionsOf := h.positionsOf_eq_filter
  positionsIn := h.positionsIn_eq_filter
  idsIn := h.idsIn_eq_map
  size := WellIndexed.size_eq_length l
  refreshed := h.refreshMarket_ne_notFound
  settled := h.settle_ne_notFound

/-- What holds between two ledgers of a run, `l` after `replies` and `last` after `later` more. -/
structure Coherent (replies : List (Except Refusal Reply)) (l : Ledger)
    (later : List (Except Refusal Reply)) (last : Ledger) : Prop where
  agrees : l.Agrees
  ascending : (openedIn (replies ++ later)).Pairwise fun a b => a.val < b.val
  /-- Every open position has a number that was handed out. -/
  numbered : ∀ p ∈ l.positions, p.id ∈ openedIn replies
  /-- A number stands for one position from first to last. -/
  identity : ∀ id p p', l.position? id = some p → last.position? id = some p' →
    p'.identity = p.identity
  /-- The number of a closed position stands for nothing any more. -/
  closed : ∀ id ∈ openedIn replies, l.position? id = none → last.position? id = none

/-- **Indices agree in every ledger that a run reaches, and numbers are used once.** -/
theorem run_coherent {first : Nat} {ops opsLater : List Operation}
    {replies later : List (Except Refusal Reply)}
    (h : (startingAt first).run ops = .ok (replies, l))
    (hlater : l.run opsLater = .ok (later, last)) : Coherent replies l later last := by
  have hfirst := WellIndexed.startingAt first
  have hindexed := hfirst.run h
  obtain ⟨hascending, hbounds, -⟩ := run_numbers hfirst h
  obtain ⟨hascending', hbounds', -⟩ := run_numbers hindexed hlater
  -- What was handed out before is below all that is handed out later, and so not among it.
  have hheld : ∀ id p', id ∈ openedIn replies → last.position? id = some p' →
      ∃ p, l.position? id = some p ∧ p'.identity = p.identity := by
    intro id p' hid hp'
    refine (run_continues hindexed hlater id p' hp').resolve_right fun hid' => ?_
    have := hbounds id hid
    have := hbounds' id hid'
    omega
  have hopened : ∀ id p, l.position? id = some p → id ∈ openedIn replies := by
    intro id p hp
    rcases run_continues hfirst h id p hp with ⟨q, hq, -⟩ | hid
    · cases hq
    · exact hid
  refine ⟨hindexed.agrees, ?_, ?_, ?_, ?_⟩
  · unfold openedIn at hascending hascending' hbounds hbounds' ⊢
    rw [List.filterMap_append, List.pairwise_append]
    refine ⟨hascending, hascending', fun a ha b hb => ?_⟩
    have := hbounds a ha
    have := hbounds' b hb
    omega
  · intro p hp
    exact hopened p.id p (hindexed.mem_positions.1 hp)
  · intro id p p' hp hp'
    obtain ⟨q, hq, hsame⟩ := hheld id p' (hopened id p hp) hp'
    rw [hp, Option.some.injEq] at hq
    rw [hsame, hq]
  · intro id hid hnone
    cases hp' : last.position? id with
    | none => rfl
    | some p' =>
      obtain ⟨q, hq, -⟩ := hheld id p' hid hp'
      rw [hnone] at hq
      cases hq

/-- Two positions are opened and a third is refused; one is closed, the other reduced. -/
def sampleRun : List Operation :=
  [.openPosition (sampleOrder ⟨1⟩ .long (.ofUInt32 2)) sampleSchedule .epoch,
    .openPosition (sampleOrder ⟨2⟩ .short (.ofUInt32 2)) sampleSchedule .epoch,
    .openPosition (sampleOrder ⟨2⟩ .long .zero) sampleSchedule .epoch,
    .close ⟨1⟩ (.ofUInt32 110) .epoch,
    .forceReduce ⟨2⟩ .one (.ofUInt32 110) sampleSchedule .epoch]

/-- The owner of the closed position opens another, which gets a number of its own. -/
theorem run_coherent_reopening :
    ∃ replies l later last,
      (startingAt 1).run sampleRun = .ok (replies, l) ∧
      l.run [.openPosition (sampleOrder ⟨1⟩ .short .one) sampleSchedule .epoch]
        = .ok (later, last) ∧
      (openedIn (replies ++ later) = [⟨1⟩, ⟨2⟩, ⟨3⟩] ∧ l.idsIn ⟨1⟩ = [⟨2⟩]) ∧
      Coherent replies l later last := by
  obtain ⟨⟨replies, l⟩, h, htest⟩ := exists_of_succeedsWith
    (fun r => succeedsWith
      (fun r' => openedIn (r.1 ++ r'.1) = [⟨1⟩, ⟨2⟩, ⟨3⟩] ∧ r.2.idsIn ⟨1⟩ = [⟨2⟩])
      (r.2.run [.openPosition (sampleOrder ⟨1⟩ .short .one) sampleSchedule .epoch]))
    (x := (startingAt 1).run sampleRun) (by decide +kernel)
  obtain ⟨⟨later, last⟩, hlater, hseen⟩ := exists_of_succeedsWith _ htest
  exact ⟨replies, l, later, last, h, hlater, of_decide_eq_true hseen, run_coherent h hlater⟩

end Ledger

end Clearing
