import TestRun.Proofs.Listener.Holding
import TestRun.Proofs.Time.Order
set_option autoImplicit false

/-!
# What is decided stays decided

An event makes one of a few turns with the node of its identifier. None of them changes the end of
a node that has ended. The one thing that may still be added to such a node is a start, at a reading
no earlier than its finish: it then took no time, and it took none before, when it had no start.
-/

namespace TestRun

open Time

namespace Node

def span (n : Node) (until? : Option Instant) : Except TimeError Duration :=
  elapsed? (n.start.or (n.finish.or until?)) (n.finish.or until?)

/-- What an event makes of a node and of the clock. -/
inductive Turns (n : Node) (c : Clock) : Node → Clock → Prop
  | stays : Turns n c n c
  | begins {now : Instant} {later : Clock} : c.read = (.ok now, later) →
      Turns n c (n.begun now) later
  | ends {now : Instant} {later : Clock} (e : Ending) : c.read = (.ok now, later) →
      Turns n c (n.closed e now) later
  | halts (e : Ending) : c.Stuck → n.ending = none → Turns n c { n with ending := some e } c

def Past (n : Node) (aware : Bool) (c : Clock) : Prop :=
  ∀ now, c.Shows now →
    ∃ finish, n.finish = some finish ∧ finish.offset.isSome = aware ∧ finish.moment ≤ now.moment

/-- Whoever asks for the end of the node or for its time gets the same answer from the other. -/
structure Matches (n m : Node) : Prop where
  ending_eq : m.ending = n.ending
  span_eq : ∀ until?, m.span until? = n.span until?

section Turns

variable {n m : Node} {c c' : Clock} {aware : Bool}

theorem Matches.refl (n : Node) : n.Matches n := ⟨rfl, fun _ => rfl⟩

theorem Matches.trans {k : Node} (h : n.Matches m) (hm : m.Matches k) : n.Matches k :=
  ⟨hm.ending_eq.trans h.ending_eq, fun until? => (hm.span_eq until?).trans (h.span_eq until?)⟩

theorem Turns.shows (h : n.Turns c m c') {i : Instant} (hi : c'.Shows i) : c.Shows i := by
  cases h with
  | stays | halts => exact hi
  | begins hread | ends _ hread => exact hi.of_later hread

theorem Turns.orderly (h : n.Turns c m c') (hc : c.Orderly aware) : c'.Orderly aware := by
  cases h with
  | stays | halts => exact hc
  | begins hread | ends _ hread => exact (hc.read hread).1

theorem Past.later (h : n.Past aware c) (hshows : ∀ i, c'.Shows i → c.Shows i) :
    n.Past aware c' := fun now hnow => h now (hshows now hnow)

theorem Turns.past (h : n.Turns c m c') (hc : c.Orderly aware)
    (hn : n.ending.isSome = true → n.Past aware c) (hm : m.ending.isSome = true) :
    m.Past aware c' := by
  have hlater (hended : n.ending.isSome = true) : n.Past aware c' :=
    (hn hended).later fun _ => h.shows
  cases h with
  | stays => exact hlater hm
  | begins hread => exact hlater hm
  | @ends now later e hread =>
    cases he : n.ending with
    | some ending =>
      rw [closed_of_ending he]
      exact hlater (he ▸ rfl)
    | none =>
      rw [closed_of_none he]
      intro i hi
      exact ⟨now, rfl, (hc.oneKind.read hread).1, (hc.read hread).2 i hi⟩
  | halts e hstuck => exact fun i hi => absurd hi (hstuck.not_shows i)

/-- A start after the finish changes nothing: the time is cut off at zero. -/
theorem matches_begun {now finish : Instant} (hstart : n.start = none)
    (hfinish : n.finish = some finish) (hkind : now.offset.isSome = finish.offset.isSome)
    (hle : finish.moment ≤ now.moment) : n.Matches (n.begun now) := by
  refine ⟨rfl, fun until? => ?_⟩
  rw [begun_of_none hstart]
  simp only [span, hstart, hfinish, Option.some_or, Option.none_or, elapsed?]
  rw [elapsed_eq hkind, elapsed_self, Int.max_eq_right (by omega)]

theorem Turns.matches (h : n.Turns c m c') (hc : c.OneKind aware) (hn : n.Past aware c)
    (hended : n.ending.isSome = true) : n.Matches m := by
  obtain ⟨ending, hending⟩ := Option.isSome_iff_exists.1 hended
  cases h with
  | stays => exact .refl n
  | @begins now _ hread =>
    cases hs : n.start with
    | some start =>
      rw [begun_of_start hs]
      exact .refl n
    | none =>
      obtain ⟨finish, hfinish, hkind, hle⟩ := hn now (Clock.shows_of_read hread)
      exact matches_begun hs hfinish ((hc.read hread).1.trans hkind.symm) hle
  | ends e hread =>
    rw [closed_of_ending hending]
    exact .refl n
  | halts e hstuck hnone =>
    rw [hnone] at hending
    cases hending

end Turns

end Node

namespace Tree

theorem duration_eq_span {t : Tree} {id : String} {n : Node} (h : t.node? id = some n)
    (until? : Option Instant) : t.duration id until? = n.span until? := by
  unfold duration
  rw [h]
  rfl

def Turned (t : Tree) (i : Identifier) (c : Clock) (n : Node) (t' : Tree) (c' : Clock) : Prop :=
  (t.nodeOf i).Turns c n c' ∧ t.Puts i n t'

variable {t : Tree}

theorem Coherent.started_turned (ht : t.Coherent) (i : Identifier) (c : Clock) :
    ∃ n, t.Turned i c n (t.started i c).tree (t.started i c).clock := by
  have hanswers := ht.started_answers i c
  revert hanswers
  generalize t.started i c = r
  rintro (⟨_, hputs⟩ | ⟨hread, hputs⟩ | ⟨_, hputs⟩)
  · exact ⟨_, .stays, hputs⟩
  · exact ⟨_, .begins hread, hputs⟩
  · exact ⟨_, .stays, hputs⟩

theorem Coherent.ended_turned (ht : t.Coherent) (i : Identifier) (e : Ending) (c : Clock) :
    ∃ n, t.Turned i c n (t.ended i e c).tree (t.ended i e c).clock ∧ n.ending.isSome = true := by
  cases hend : (t.nodeOf i).ending with
  | some ending =>
    refine ⟨t.nodeOf i, ?_, hend ▸ rfl⟩
    simp only [ended, hend]
    exact ⟨.stays, ht.puts_touch i⟩
  | none =>
    have hclosed := (t.nodeOf i).isSome_ending_closed e
    have hanswers := ht.ended_answers i e c
    revert hanswers
    generalize t.ended i e c = r
    rintro (⟨hnext, hputs⟩ | ⟨hread, hputs⟩ | ⟨hstuck, hputs⟩)
    · exact ⟨_, ⟨.stays, hputs⟩, hnext .epoch ▸ hclosed .epoch⟩
    · exact ⟨_, ⟨.ends e hread, hputs⟩, hclosed _⟩
    · exact ⟨_, ⟨.halts e hstuck hend, hputs⟩, rfl⟩

theorem Coherent.act_turned (ht : t.Coherent) (c : Call) (s : Surroundings) :
    ∃ t' s', (c.act.perform (t, s)).2 = (t', s') ∧
      ((c.ending? = none ∧ t' = t.register c.identifier ∧ s' = s) ∨
        ∃ n, t.Turned c.identifier s.clock n t' s'.clock ∧
          (c.ending?.isSome = true → n.ending.isSome = true)) := by
  have hended (i : Identifier) (e : Ending) :
      ∃ t' s', ((hearEnded i e).perform (t, s)).2 = (t', s') ∧
        ∃ n, t.Turned i s.clock n t' s'.clock ∧ n.ending.isSome = true := by
    obtain ⟨s', hact, -, hclock⟩ := perform_hearEnded_reply t i e s
    refine ⟨_, s', congrArg Prod.snd hact, ?_⟩
    rw [hclock]
    exact ht.ended_turned i e s.clock
  cases c with
  | register i => exact ⟨_, s, rfl, .inl ⟨rfl, rfl, rfl⟩⟩
  | started i =>
    obtain ⟨n, hn⟩ := ht.started_turned i s.clock
    refine ⟨_, _, (Act.state_bind_pure _ () _).trans (congrArg Prod.snd (perform_hear _ t s)),
      .inr ⟨n, hn, nofun⟩⟩
  | skipped i reason? =>
    obtain ⟨t', s', hact, n, hn, hend⟩ := hended i (.skipped (reason?.getD ""))
    exact ⟨t', s', (Act.state_bind_pure _ () _).trans hact, .inr ⟨n, hn, fun _ => hend⟩⟩
  | finished i result =>
    obtain ⟨t', s', hact, n, hn, hend⟩ := hended i (.finished result)
    exact ⟨t', s', (Act.state_bind_pure _ () _).trans hact, .inr ⟨n, hn, fun _ => hend⟩⟩

/-- The tree is coherent, and no node in it ended after a reading that is still to come. -/
structure Settles (t : Tree) (aware : Bool) (c : Clock) : Prop where
  coherent : t.Coherent
  past : ∀ {id n}, t.node? id = some n → n.ending.isSome = true → n.Past aware c

def Upholds (t t' : Tree) : Prop :=
  ∀ id n, t.node? id = some n → n.ending.isSome = true →
    ∃ m, t'.node? id = some m ∧ n.Matches m

theorem Upholds.refl (t : Tree) : t.Upholds t := fun _ n hn _ => ⟨n, hn, .refl n⟩

theorem Upholds.trans {t' t'' : Tree} (h : t.Upholds t') (h' : t'.Upholds t'') :
    t.Upholds t'' := by
  intro id n hn hended
  obtain ⟨m, hm, hmatches⟩ := h id n hn hended
  obtain ⟨k, hk, hmatches'⟩ := h' id m hm (hmatches.ending_eq ▸ hended)
  exact ⟨k, hk, hmatches.trans hmatches'⟩

theorem Upholds.isEnded {t' : Tree} (h : t.Upholds t') {id : String} (hid : t.isEnded id = true) :
    t'.isEnded id = true := by
  unfold Tree.isEnded at hid ⊢
  cases hn : t.node? id with
  | none => rw [hn] at hid; cases hid
  | some n =>
    rw [hn] at hid
    obtain ⟨m, hm, hmatches⟩ := h id n hn hid
    rw [hm, Option.bind_some, hmatches.ending_eq]
    exact hid

theorem begin_settles (p : Plan) (startedAt? : Option Instant) (aware : Bool) (c : Clock) :
    (begin p startedAt?).Settles aware c := by
  refine ⟨begin_coherent p startedAt?, fun {id n} hn hended => ?_⟩
  rcases node?_begin p startedAt? id with ⟨i, -, -, hget⟩ | ⟨-, hget⟩ <;> rw [hget] at hn <;>
    cases hn
  cases hended

section Turned

variable {aware : Bool} {i : Identifier} {c c' : Clock} {n : Node} {t' : Tree}

theorem Settles.nodeOf (h : t.Settles aware c) (hended : (t.nodeOf i).ending.isSome = true) :
    (t.nodeOf i).Past aware c := by
  unfold Tree.nodeOf at hended ⊢
  cases hn : t.node? i.id with
  | none => rw [hn] at hended; cases hended
  | some n => rw [hn] at hended; exact h.past hn hended

theorem Turned.settles (h : t.Turned i c n t' c') (ht : t.Settles aware c)
    (hc : c.Orderly aware) : t'.Settles aware c' := by
  refine ⟨h.2.coherent, fun {id m} hm hended => ?_⟩
  rw [h.2.node?_eq] at hm
  by_cases hid : id = i.id
  · rw [if_pos hid] at hm
    cases hm
    exact h.1.past hc ht.nodeOf hended
  · rw [if_neg hid] at hm
    exact (ht.past hm hended).later fun _ => h.1.shows

theorem Turned.upholds (h : t.Turned i c n t' c') (ht : t.Settles aware c)
    (hc : c.Orderly aware) : t.Upholds t' := by
  intro id m hm hended
  rw [h.2.node?_eq]
  by_cases hid : id = i.id
  · have hnode : t.nodeOf i = m := by
      rw [Tree.nodeOf, ← hid, hm]
      rfl
    rw [if_pos hid]
    rw [← hnode] at hended ⊢
    exact ⟨n, rfl, h.1.matches hc.oneKind (ht.nodeOf hended) hended⟩
  · rw [if_neg hid]
    exact ⟨m, hm, .refl m⟩

end Turned

theorem Settles.act {aware : Bool} {s : Surroundings} (ht : t.Settles aware s.clock)
    (hs : s.clock.Orderly aware) (c : Call) :
    ∃ t' s', (c.act.perform (t, s)).2 = (t', s') ∧ t'.Settles aware s'.clock ∧
      s'.clock.Orderly aware ∧ t.Upholds t' ∧
      (c.ending?.isSome = true → t'.isEnded c.identifier.id = true) := by
  obtain ⟨t', s', hact, ⟨hnone, rfl, rfl⟩ | ⟨n, hn, hended⟩⟩ := ht.coherent.act_turned c s
  · refine ⟨_, _, hact, ⟨ht.coherent.register _, ht.past⟩, hs, .refl t, fun hsome => ?_⟩
    rw [hnone] at hsome
    cases hsome
  · refine ⟨t', s', hact, hn.settles ht hs, hn.1.orderly hs, hn.upholds ht hs, fun hsome => ?_⟩
    rw [Tree.isEnded, hn.2.node?_eq, if_pos rfl]
    exact hended hsome

def callEach (log : List Call) : Hearing Tree Unit := log.forM fun c => do let _ ← c.act.attempt

theorem perform_callEach_cons (c : Call) (log : List Call) (t : Tree) (s : Surroundings) :
    (callEach (c :: log)).perform (t, s) = (callEach log).perform (c.act.perform (t, s)).2 := by
  have hfirst : (do let _ ← c.act.attempt : Hearing Tree Unit).perform (t, s) =
      (.ok (), (c.act.perform (t, s)).2) := rfl
  rw [callEach, Act.perform_forM_cons, Act.perform_bind_ok hfirst]
  rfl

theorem Settles.callEach {aware : Bool} {s : Surroundings} (ht : t.Settles aware s.clock)
    (hs : s.clock.Orderly aware) (log : List Call) :
    ∃ t' s', (callEach log).perform (t, s) = (.ok (), (t', s')) ∧ t'.Settles aware s'.clock ∧
      s'.clock.Orderly aware ∧ t.Upholds t' ∧
      ∀ id, (endIn log id).isSome = true → t'.isEnded id = true := by
  induction log generalizing t s with
  | nil => exact ⟨t, s, rfl, ht, hs, .refl t, nofun⟩
  | cons c log ih =>
    obtain ⟨t₁, s₁, hact, ht₁, hs₁, hupholds₁, hended₁⟩ := ht.act hs c
    obtain ⟨t₂, s₂, hrest, ht₂, hs₂, hupholds₂, hended₂⟩ := ih ht₁ hs₁
    refine ⟨t₂, s₂, ?_, ht₂, hs₂, hupholds₁.trans hupholds₂, fun id hid => ?_⟩
    · rw [perform_callEach_cons, hact]
      exact hrest
    · rw [endIn_cons] at hid
      by_cases hc : c.identifier.id = id ∧ c.ending?.isSome = true
      · exact hupholds₂.isEnded (hc.1 ▸ hended₁ hc.2)
      · apply hended₂
        split at hid
        · cases hnone : c.ending? with
          | some e => exact absurd ⟨‹_›, hnone ▸ rfl⟩ hc
          | none => rwa [hnone] at hid
        · exact hid

/-- Once an identifier has been skipped or has finished, no later calls change its verdict or its
time, if the clock never goes back. The calls before and after may be any, and may fail. -/
theorem decided_lasts (p : Plan) (startedAt? : Option Instant) (s : Surroundings) {aware : Bool}
    (hs : s.clock.Orderly aware) (log later : List Call) (i : Identifier)
    (hi : (endIn log i.id).isSome = true) :
    let before := ((callEach log).perform (begin p startedAt?, s)).2
    let after := ((callEach later).perform before).2
    after.1.classify i = before.1.classify i ∧
      ∀ until?, after.1.duration i.id until? = before.1.duration i.id until? := by
  obtain ⟨t, s₁, hbefore, ht, hs₁, -, hended⟩ :=
    (begin_settles p startedAt? aware s.clock).callEach hs log
  obtain ⟨t', s₂, hafter, -, -, hupholds, -⟩ := ht.callEach hs₁ later
  rw [hbefore]
  dsimp only
  rw [hafter]
  have hnode := hended i.id hi
  unfold isEnded at hnode
  cases hn : t.node? i.id with
  | none => rw [hn] at hnode; cases hnode
  | some n =>
    rw [hn, Option.bind_some] at hnode
    obtain ⟨m, hm, hmatches⟩ := hupholds i.id n hn hnode
    constructor
    · unfold classify
      rw [hm, hn, Option.bind_some, Option.bind_some, hmatches.ending_eq]
      cases he : n.ending with
      | some ending => rfl
      | none => rw [he] at hnode; cases hnode
    · intro until?
      rw [duration_eq_span hm, duration_eq_span hn, hmatches.span_eq]

theorem decided_lasts_late_start :
    let test : Identifier := ⟨"e:t", "t", some "e", .test⟩
    let at5 : Instant := ⟨5, some 0, by decide, by decide⟩
    let at9 : Instant := ⟨9, some 0, by decide, by decide⟩
    let s := Surroundings.bare (.listed at5 [at9])
    let before := ((callEach [.finished test .successful]).perform (begin (.empty 0) none, s)).2
    let after := ((callEach [.started test, .skipped test none]).perform before).2
    after.1.node? "e:t" = some ⟨test, some at9, some (.finished .successful), some at5⟩ ∧
      after.1.classify test = before.1.classify test ∧
      ∀ until?, after.1.duration "e:t" until? = before.1.duration "e:t" until? := by
  intro test at5 at9 s before after
  have horderly : s.clock.Orderly true :=
    ⟨Clock.listed_oneKind (by decide), Clock.listed_neverGoesBack (by decide)⟩
  exact ⟨by decide, decided_lasts (.empty 0) none s horderly [.finished test .successful]
    [.started test, .skipped test none] test (by decide)⟩

end Tree

end TestRun
