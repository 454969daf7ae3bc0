import PhysMem.Proofs.Integrity

/-!
# Operations alone — nothing happens at their call-outs

An operation that is left alone goes on from each of its call-outs with the memory as it left it,
but for the faults of the drive, which may come and go at any moment. What such an operation comes
to is a matter of its pieces only.

An eviction that makes room for something does, up to its end, what an eviction does that nobody
waits for, and then what the need makes of its answer. So what is known of evictions alone is known
of those as well.

* **`Leads`** and **`Performs`** say what an operation comes to, **`performs_iff_run`** says it with
  the machine.
* **`resume_wants`** and **`evict_wants`** take the need out of an eviction, piece by piece.
-/

namespace PhysMem

namespace Task

/-! ## What an operation comes to -/

/-- The operation goes on from `p` to `q`: at its call-outs nothing happens but faults of the
drive. -/
inductive Leads (p : Piece) : Piece → Prop
  | refl : Leads p p
  | resumed {q r : Piece} {t : Task} (h : Leads p q) (hn : q.next = .callOut t)
      (hr : resume false q.memory t = .ok r) :
      Leads p { r with notices := q.notices ++ r.notices }
  | faulted {q : Piece} {probe : Probe} {o : Outcome} {n : Memory} (h : Leads p q)
      (hfault : probe.isFault = true) (hn : probe.act q.memory = .ok (o, n)) :
      Leads p { q with memory := n }

end Task

/-- Started in `m` and left alone, the operation comes to `p`: to this memory and these notices, and
then to a call-out or to its answer. -/
def Memory.Performs (m : Memory) (op : Operation) (p : Task.Piece) : Prop :=
  ∃ first, Task.start false m op = .ok first ∧ Task.Leads first p

namespace Task

variable {m n : Memory} {p q r : Piece} {t : Task} {op : Operation}

/-- An operation that has answered is over: only faults of the drive follow, which might as well
follow another answer given in the same memory. -/
theorem Leads.of_reply {reply : Reply} (h : Leads p q) (hp : p.next = .reply reply) :
    q.next = p.next ∧ q.notices = p.notices ∧
      ∀ r : Piece, r.memory = p.memory → Leads r { r with memory := q.memory } := by
  induction h with
  | refl =>
      refine ⟨rfl, rfl, fun r hr => ?_⟩
      rw [← hr]
      exact .refl
  | resumed h hn hr ih =>
      rw [hn, hp] at ih
      exact nomatch ih.1
  | @faulted q probe o n h hfault hn ih =>
      refine ⟨ih.1, ih.2.1, fun r hr => ?_⟩
      exact .faulted (q := { r with memory := q.memory }) (ih.2.2 r hr) hfault hn

/-- What every piece and every fault keeps, an operation alone keeps. -/
theorem Leads.keeps {P : Piece → Prop} (h : Leads p q) (hp : P p)
    (resumed : ∀ {q r : Piece} {t : Task}, P q → q.next = .callOut t →
      resume false q.memory t = .ok r → P { r with notices := q.notices ++ r.notices })
    (faulted : ∀ {q : Piece} {probe : Probe} {o : Outcome} {n : Memory}, P q →
      probe.isFault = true → probe.act q.memory = .ok (o, n) → P { q with memory := n }) :
    P q := by
  induction h with
  | refl => exact hp
  | resumed h hn hr ih => exact resumed ih hn hr
  | faulted h hfault hn ih => exact faulted ih hfault hn

end Task

/-! ## The same with the machine -/

/-- The innermost call goes on, or the drive is told which transfers fail. -/
def Move.isQuiet : Move → Bool
  | .resume => true
  | .probe p => p.isFault
  | .start _ => false

namespace Machine

variable {m n : Memory} {op : Operation} {p q : Task.Piece} {w z : Machine} {moves : List Move}
  {events : List Event}

theorem leavesSlots_of_isFault {probe : Probe} (h : probe.isFault = true) :
    probe.leavesSlots = true := by
  cases probe with
  | setFailing direction failing => rfl
  | setLimit direction limit => rfl
  | _ => exact nomatch h

/-- The machine that runs one operation. -/
def running (op : Operation) (p : Task.Piece) : Machine := (follow op [] p).1

theorem follow_notices (notices : List Notice) :
    follow op [] { p with notices } = follow op [] p := by
  unfold follow
  cases p.next <;> rfl

/-- An operation alone that answers is shown to answer. -/
theorem answered_of_reply {r : Reply} (h : p.next = .reply r) :
    .answered 0 op r ∈ (follow op [] p).2 :=
  @mem_follow_of_reply op [] p r h

/-- The machine takes an operation where it leads on its own. -/
theorem run_of_leads (op : Operation) (h : Task.Leads p q) : ∃ moves events,
    (∀ move ∈ moves, move.isQuiet = true) ∧
    (running op p).run sequential moves = some (running op q, events) ∧
    ∀ r, q.next = .reply r → p.next = .reply r ∨ .answered 0 op r ∈ events := by
  induction h with
  | refl => exact ⟨[], [], nofun, rfl, fun r hr => Or.inl hr⟩
  | @resumed q r t h hn hr ih =>
      obtain ⟨moves, events, hquiet, hrun, -⟩ := ih
      have hq : running op q = ⟨q.memory, [⟨op, t⟩]⟩ := by
        unfold running follow
        rw [hn]
      have hmove : (running op q).step .resume = .ok (follow op [] r) := by
        rw [hq]
        show (Task.resume (deviceHeld []) q.memory t >>= _) = _
        rw [show Task.resume (deviceHeld []) q.memory t = .ok r from hr]
        rfl
      have hstep : (running op q).run sequential [.resume] =
          some (running op r, (follow op [] r).2 ++ []) := by
        have hrule : sequential (running op q) .resume = true := rfl
        simp only [run, hrule, if_true, hmove]
        rfl
      refine ⟨moves ++ [.resume], events ++ ((follow op [] r).2 ++ []), ?_, ?_, ?_⟩
      · exact List.forall_mem_append.mpr ⟨hquiet, List.forall_mem_singleton.mpr rfl⟩
      · rw [show running op { r with notices := q.notices ++ r.notices } = running op r from
          congrArg Prod.fst (follow_notices _)]
        exact run_append.mpr ⟨_, _, _, hrun, hstep, rfl⟩
      · intro reply hreply
        refine Or.inr (List.mem_append_right _ (List.mem_append_left _ ?_))
        exact answered_of_reply hreply
  | @faulted q probe o n h hfault hn ih =>
      obtain ⟨moves, events, hquiet, hrun, hreply⟩ := ih
      have hstep : (running op q).run sequential [.probe probe] =
          some (running op { q with memory := n }, []) := by
        have hrule : sequential (running op q) (.probe probe) = true := by
          show (probe.leavesSlots && ((running op q).calls.isEmpty || probe.isFault)) = true
          rw [leavesSlots_of_isFault hfault, hfault, Bool.or_true]
          rfl
        have hmove : (running op q).step (.probe probe) =
            .ok ({ running op q with memory := n }, []) := by
          show (probe.perform (loans _) (running op q).memory >>= _) = _
          rw [Probe.perform_of_isFault hfault,
            show (running op q).memory = q.memory from follow_memory op [] q, hn]
          rfl
        have hsame : ({ running op q with memory := n } : Machine) =
            running op { q with memory := n } := by
          unfold running follow
          cases q.next <;> rfl
        simp only [run, hrule, if_true, hmove, Option.map_some, hsame, List.append_nil]
      refine ⟨moves ++ [.probe probe], events ++ [], ?_, ?_, ?_⟩
      · exact List.forall_mem_append.mpr ⟨hquiet, List.forall_mem_singleton.mpr hfault⟩
      · exact run_append.mpr ⟨_, _, _, hrun, hstep, rfl⟩
      · rw [List.append_nil]
        exact hreply

/-- And an operation leads where the machine takes it. -/
theorem leads_of_run (hquiet : ∀ move ∈ moves, move.isQuiet = true)
    (h : (running op p).run sequential moves = some (z, events)) :
    ∃ q, Task.Leads p q ∧ z = running op q ∧
      ∀ k r, .answered k op r ∈ events → q.next = .reply r := by
  suffices key : ∀ {moves : List Move} {p first : Task.Piece} {events : List Event},
      (∀ move ∈ moves, move.isQuiet = true) → Task.Leads first p →
      (running op p).run sequential moves = some (z, events) →
      ∃ q, Task.Leads first q ∧ z = running op q ∧ (∀ r, p.next = .reply r → q.next = .reply r) ∧
        ∀ k r, .answered k op r ∈ events → q.next = .reply r by
    obtain ⟨q, hlead, hz, -, hanswer⟩ := key hquiet .refl h
    exact ⟨q, hlead, hz, hanswer⟩
  intro moves
  induction moves with
  | nil =>
      intro p first events _ hlead hrun
      cases hrun
      exact ⟨p, hlead, rfl, fun _ h => h, fun _ _ h => (List.not_mem_nil h).elim⟩
  | cons move rest ih =>
      intro p first events hquiet hlead hrun
      obtain ⟨w', now, later, hrule, hstep, hrun, rfl⟩ := run_cons hrun
      have hmove := hquiet move List.mem_cons_self
      have hrest : ∀ move ∈ rest, move.isQuiet = true :=
        fun move hmem => hquiet move (List.mem_cons_of_mem _ hmem)
      -- one move leads to a piece that has answered if the one before has, or if the move answers
      obtain ⟨p', hlead', rfl, hkept, hnow⟩ : ∃ p', Task.Leads first p' ∧ w' = running op p' ∧
          (∀ r, p.next = .reply r → p'.next = .reply r) ∧
          ∀ k r, .answered k op r ∈ now → p'.next = .reply r := by
        cases move with
        | start op => exact nomatch hmove
        | resume =>
            obtain ⟨hmem, ⟨t, hn, hcalls, -⟩ | ⟨reply, hn, hcalls, -⟩⟩ := follow_calls op [] p
            · obtain ⟨piece, hpiece, rfl, rfl⟩ := resume_of_calls hcalls hstep
              rw [hmem] at hpiece
              refine ⟨{ piece with notices := p.notices ++ piece.notices },
                .resumed hlead hn hpiece, (congrArg Prod.fst (follow_notices _)).symm, ?_, ?_⟩
              · intro r hr
                rw [hn] at hr
                exact nomatch hr
              · intro k r hr
                exact (answered_of_follow hr).1
            · rcases resume_cases hstep with ⟨-, rfl, rfl⟩ | ⟨call, outer, piece, hsome, -⟩
              · exact ⟨p, hlead, rfl, fun _ h => h, fun _ _ h => (List.not_mem_nil h).elim⟩
              · exact nomatch hcalls.symm.trans hsome
        | probe probe =>
            obtain ⟨o, n, hperform, rfl, rfl⟩ := probe_cases hstep
            rw [Probe.perform_of_isFault hmove,
              show (running op p).memory = p.memory from follow_memory op [] p] at hperform
            refine ⟨{ p with memory := n }, .faulted hlead hmove hperform, ?_, fun _ h => h,
              fun _ _ h => (List.not_mem_nil h).elim⟩
            unfold running follow
            cases p.next <;> rfl
      obtain ⟨q, hq, hz, hkeep, hanswer⟩ := ih hrest hlead' hrun
      refine ⟨q, hq, hz, fun r hr => hkeep r (hkept r hr), fun k r hr => ?_⟩
      rcases List.mem_append.mp hr with hr | hr
      · exact hkeep r (hnow k r hr)
      · exact hanswer k r hr

/-- **What an operation comes to alone** is what sequential runs come to in which nothing but it
happens. -/
theorem performs_iff_run (hop : op.isManaged = true) {r : Reply} :
    (∃ notices, m.Performs op ⟨n, notices, .reply r⟩) ↔
      ∃ moves events, (∀ move ∈ moves, move.isQuiet = true) ∧
        (idle m).run sequential (.start op :: moves) = some (idle n, events) ∧
        .answered 0 op r ∈ events := by
  have hstart : ∀ {p : Task.Piece}, Task.start false m op = .ok p →
      (idle m).run sequential [.start op] = some (running op p, (follow op [] p).2 ++ []) := by
    intro p hp
    have hrule : sequential (idle m) (.start op) = true := hop
    have hmove : (idle m).step (.start op) = .ok (follow op [] p) := by
      show (Task.start false m op >>= _) = _
      rw [hp]
      rfl
    simp only [run, hrule, if_true, hmove]
    rfl
  constructor
  · rintro ⟨notices, first, hp, hlead⟩
    obtain ⟨moves, events, hquiet, hrun, hreply⟩ := run_of_leads op hlead
    refine ⟨moves, _, hquiet, run_append.mpr ⟨_, _, _, hstart hp, hrun, rfl⟩, ?_⟩
    rcases hreply r rfl with hfirst | hmem
    · exact List.mem_append_left _ (List.mem_append_left _ (answered_of_reply hfirst))
    · exact List.mem_append_right _ hmem
  · rintro ⟨moves, events, hquiet, hrun, hanswer⟩
    obtain ⟨w', now, later, hrule, hstep, hrest, rfl⟩ := run_cons hrun
    obtain ⟨p, hp, hfollow⟩ := start_cases hstep
    obtain rfl : running op p = w' := congrArg Prod.fst hfollow
    obtain rfl : (follow op [] p).2 = now := congrArg Prod.snd hfollow
    obtain ⟨q, hlead, hz, hlater⟩ := leads_of_run hquiet hrest
    have hreply : q.next = .reply r := by
      rcases List.mem_append.mp hanswer with hnow | hmem
      · have hn := (answered_of_follow hnow).1
        rw [(hlead.of_reply hn).1, hn]
      · exact hlater 0 r hmem
    obtain ⟨memory, notices, next⟩ := q
    obtain rfl : next = .reply r := hreply
    obtain rfl : n = memory := congrArg Machine.memory hz
    exact ⟨notices, p, hp, hlead⟩

/-- What the machine shows of an operation between two states without calls. -/
theorem performs_of_run (hop : op.isManaged = true)
    (hquiet : ∀ move ∈ moves, move.isQuiet = true) (hw : w.calls = [])
    (hrun : w.run sequential (.start op :: moves) = some (z, events)) (hz : z.calls = [])
    {r : Reply} (hanswer : .answered 0 op r ∈ events) :
    ∃ notices, w.memory.Performs op ⟨z.memory, notices, .reply r⟩ := by
  obtain ⟨m, calls⟩ := w
  obtain ⟨n, calls'⟩ := z
  obtain rfl : calls = [] := hw
  obtain rfl : calls' = [] := hz
  exact (performs_iff_run hop).mpr ⟨moves, events, hquiet, hrun, hanswer⟩

end Machine

/-! ## Evictions that make room -/

namespace Task

variable {m : Memory} {p q : Piece} {notices : List Notice} {held : Bool} {need : Need}

/-- The same eviction, waited for. -/
def wants (need : Need) : Task → Task
  | .evictMapping e => .evictMapping { e with need := some need }
  | .evictWriting e i => .evictWriting { e with need := some need } i
  | .evictTelling e => .evictTelling { e with need := some need }
  | t => t

/-- What a need makes of a piece of an eviction: it waits, or it tries once more. -/
def afterwards (need : Need) (p : Piece) : Except Fault Piece :=
  match p.next with
  | .callOut t => .ok { p with next := .callOut (t.wants need) }
  | .reply (.evicted result) => evictionEnded p.memory p.notices (some need) result
  | .reply _ => .ok p

theorem evictionEnded_wants (result : Except EvictError (Nat × Nat)) :
    evictionEnded m notices (some need) result =
      evictionEnded m notices none result >>= afterwards need := rfl

theorem writeFailed_wants {e : Eviction} {cause : SwapError} :
    writeFailed m { e with need := some need } cause =
      writeFailed m { e with need := none } cause >>= afterwards need := by
  simp only [writeFailed, bind_assoc, evictionEnded_wants]

theorem writeAt_wants {e : Eviction} {i : Place} :
    writeAt m { e with need := some need } i =
      writeAt m { e with need := none } i >>= afterwards need := by
  simp only [writeAt, bind_assoc]
  congr 1
  funext refusal
  cases refusal with
  | some cause => exact writeFailed_wants
  | none => rfl

theorem written_wants {e : Eviction} :
    written m { e with need := some need } =
      written m { e with need := none } >>= afterwards need := by
  simp only [written, bind_assoc]
  congr 1
  funext settled
  congr 1
  funext d
  split
  · simp only [bind_assoc, evictionEnded_wants]
  · rfl

theorem writeNow_wants {e : Eviction} {i : Place} :
    writeNow m { e with need := some need } i =
      writeNow m { e with need := none } i >>= afterwards need := by
  simp only [writeNow, bind_assoc]
  congr 1
  funext ⟨answer, device⟩
  cases answer with
  | error cause => exact writeFailed_wants
  | ok u =>
      dsimp only
      cases nextPlace i with
      | some j => exact writeAt_wants
      | none => exact written_wants

theorem toldPager_wants {e : Eviction} :
    toldPager m { e with need := some need } =
      toldPager m { e with need := none } >>= afterwards need := by
  simp only [toldPager, bind_assoc, evictionEnded_wants]
  congr 1
  funext ⟨orphaned, coremap⟩
  cases orphaned with
  | true => simp only [if_true, bind_assoc]
  | false => rfl

/-- **An eviction that makes room starts as any other.** -/
theorem evict_wants : evict m (some need) = evict m none >>= afterwards need := by
  simp only [evict, bind_assoc]
  congr 1
  funext ⟨victim, coremap⟩
  cases victim with
  | none => rfl
  | some victim =>
      simp only [bind_assoc]
      congr 1
      funext address
      congr 1
      funext ⟨reserved, slots⟩
      cases reserved with
      | error e => simp only [bind_assoc, evictionEnded_wants]
      | ok slot => rfl

/-- An eviction that nobody waits for. -/
def isPlain : Task → Bool
  | .evictMapping e | .evictWriting e _ | .evictTelling e => e.need.isNone
  | _ => false

/-- **An eviction that makes room goes on as any other.** -/
theorem resume_wants {t : Task} (ht : t.isPlain = true) :
    resume held m (t.wants need) = resume held m t >>= afterwards need := by
  have hplain : ∀ {e : Eviction}, e.need.isNone = true → { e with need := none } = e := by
    rintro ⟨frame, address, page, slot, need⟩ hnone
    obtain rfl : need = none := Option.isNone_iff_eq_none.mp hnone
    rfl
  cases t with
  | evictMapping e =>
      have hwants := @writeAt_wants m need e firstPlace
      rw [hplain ht] at hwants
      simp only [resume, wants, bind_assoc, hwants]
  | evictWriting e i =>
      have hwants := @writeNow_wants m need e i
      rw [hplain ht] at hwants
      exact hwants
  | evictTelling e =>
      have hwants := @toldPager_wants m need e
      rw [hplain ht] at hwants
      exact hwants
  | _ => exact nomatch ht

end Task

end PhysMem
