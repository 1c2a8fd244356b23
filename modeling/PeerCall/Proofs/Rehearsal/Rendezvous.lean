import PeerCall.Proofs.Rehearsal.Underway

/-!
# Rendezvous in either order

Whichever side is bound first, and however long the other one takes, a host and a joiner find each
other, with one exception. The first announcement of a joiner that is there first reaches nobody.
The host announces itself later, and a joiner that hears it announces itself again, unless it has
done so within its interval. If it has, nobody says anything more.
-/
namespace PeerCall.Rehearsal.Duet

open Handshake

section
variable {limit : Nat} {hostAt joinerAt : Net.Address} {h j p q : Party Probe} {a b : Loopback}
  {c c' d d' : Call Probe} {past : List Happening} {now : Instant} {errand : Errand}
  {e : Option Event} {words : List Signal}

/-! ## The announcements of the joiner -/

theorem order_cons {x : Happening} (hx : x ≠ .bound .host) {t : Instant} :
    List.Sublist [.bound .host, .turn .joiner t none] (x :: past) ↔
      List.Sublist [.bound .host, .turn .joiner t none] past := by
  rw [List.cons_sublist_cons']
  exact or_iff_left fun h => hx h.1.symm

/-- What was heard too soon stays so. -/
theorem TooSoon.cons (hs : TooSoon h j past) (x : Happening) : TooSoon h j (x :: past) := by
  obtain ⟨t₀, t, m, horder, hturn, hjoin, hlt⟩ := hs
  exact ⟨t₀, t, m, horder.cons x, List.mem_cons_of_mem _ hturn, hjoin, hlt⟩

theorem mem_turn_of_order {t : Instant}
    (h : List.Sublist [.bound .host, .turn .joiner t none] past) : .turn .joiner t none ∈ past :=
  h.subset (List.mem_cons_of_mem _ List.mem_cons_self)

/-- The host takes a turn. -/
theorem Announced.host_turn (ha : Announced h j c d past) (hbound : c.binding.isSome = true)
    (hbound' : c'.binding.isSome = true) (hd : Placed .joiner h d b past) {ms : List Message}
    (hroom : (waiting d).length + ms.length ≤ messageCapacity)
    (hsent : c'.session.sent = c.session.sent ++ ms)
    (hcame : came .host c' (.turn .host now e :: past) = came .host c past) :
    Announced h j c' (d.hear ms) (.turn .host now e :: past) := by
  have hheard : heardBy .joiner (.turn .host now e :: past) = heardBy .joiner past :=
    heardBy_turn_facing
  have hcame' : d.binding.isSome = true → came .joiner (d.hear ms) (.turn .host now e :: past) =
      came .joiner d past ++ ms := by
    intro hsome
    have hcame' : came .joiner (d.hear ms) (.turn .host now e :: past) = _ := came_hear hd hroom
    rw [hcame', hsome]
    rfl
  have hkept : d.binding.isSome = true → c.session.sent = came .joiner d past →
      c'.session.sent = came .joiner (d.hear ms) (.turn .host now e :: past) := by
    intro hsome hall
    rw [hsent, hall, hcame' hsome]
  have hturn : ∀ {t e'}, .turn .joiner t e' ∈ (.turn .host now e :: past) →
      .turn .joiner t e' ∈ past :=
    fun hmem => (List.mem_cons.mp hmem).resolve_left fun h => nomatch h
  have hother : Happening.turn .host now e ≠ .bound .host := fun h => nomatch h
  cases ha with
  | kept hfair halone hall =>
      refine .kept (fun t horder => hfair t ((order_cons hother).mp horder)) ?_ ?_
      · intro hnone
        rw [hnone] at hbound'
        cases hbound'
      · rw [Call.session_hear, hcame]
        exact hall
  | alone t₀ hhost hlast hlook honce =>
      rw [hhost] at hbound
      cases hbound
  | lost t₀ hlast horder honce hdeaf hquiet hall =>
      refine .lost t₀ ?_ (horder.cons _) (fun t hmem => honce t (hturn hmem)) ?_ ?_ ?_
      · rw [Call.session_hear]
        exact hlast
      · rw [hheard]
        exact hdeaf
      · rw [hcame]
        exact hquiet
      · exact hkept (hd.bound (mem_turn_of_order horder)) hall
  | missed hsoon hheard' hquiet hall =>
      obtain ⟨m, hm, hjoin⟩ := hheard'
      obtain ⟨t, ht⟩ := mem_heardBy.mp hm
      refine .missed (hsoon.cons _) ⟨m, by rw [hheard]; exact hm, hjoin⟩ ?_
        (hkept (hd.bound ht) hall)
      rw [hcame]
      exact hquiet
  | answered hlate hheard' hloud hall =>
      obtain ⟨m, hm, hjoin⟩ := hheard'
      obtain ⟨t, ht⟩ := mem_heardBy.mp hm
      refine .answered (fun t₀ t m hlook htaken => hlate t₀ t m (hturn hlook) (hturn htaken))
        ⟨m, by rw [hheard]; exact hm, hjoin⟩ ?_ (hkept (hd.bound ht) hall)
      rw [hcame]
      exact hloud

/-- After one announcement of the host no other one waits. -/
theorem Underway.once_heard (hx : Underway limit h j a b c d past)
    (hsent : c.session.sent = came .joiner d past)
    (hheard : ∃ m ∈ heardBy .joiner past, IsJoin j h m) : ∀ m ∈ waiting d, ¬ IsJoin j h m := by
  intro n hn hjoin'
  obtain ⟨m, hm, hjoin⟩ := hheard
  have honce := hx.once
  rw [said_eq_reads, hsent, came, reads_append, List.countP_append] at honce
  have hfirst : 0 < (reads j (heardBy .joiner past).reverse).countP isJoin :=
    List.countP_pos_iff.mpr ⟨.join, mem_reads (List.mem_reverse.mpr hm) hjoin, rfl⟩
  have hsecond : 0 < (reads j (waiting d)).countP isJoin :=
    List.countP_pos_iff.mpr ⟨.join, mem_reads hn hjoin', rfl⟩
  omega

/-- As long as no announcement has come to the host, the joiner waits for the negotiation. -/
theorem Underway.joiner_waits (hx : Underway limit h j a b c d past) {b' b₂ : Binding}
    (hs : Present .host j c a past b') (hd : Present .joiner h d b past b₂)
    (hquiet : ∀ m ∈ heardBy .host past, ¬ IsJoin h j m) : Opening d.session.bare := by
  have hagreed := hx.joiner_part hd 0
  rw [ready_of_present hs] at hagreed
  rcases hagreed.joiner.phase with hopening | ⟨-, answer, hanswer⟩
  · exact hopening
  · have honce : c.session.offers j = 1 := hagreed.answered answer hanswer
    obtain ⟨m, hm, hjoin⟩ := hx.offers (by rw [honce]; exact Nat.one_ne_zero)
    exact absurd hjoin (hquiet m hm)

section
variable {ms : List Message} {event : Event} {t₀ : Instant}

/-- What the host has sent has come to the joiner also after a turn of the joiner. -/
theorem JoinerTurn.all_came (ht : JoinerTurn limit h j b c d d' past now e words)
    (hall : c.session.sent = came .joiner d past) :
    (c.hear ms).session.sent = came .joiner d' (.turn .joiner now e :: past) := by
  rw [Call.session_hear, ht.turned.came]
  exact hall

/-- A joiner that hears no announcement makes none. -/
theorem JoinerTurn.silent (ht : JoinerTurn limit h j b c d d' past now (some event) words)
    (hno : ∀ m, event = .message m → ¬ IsJoin j h m) : .join ∉ words := by
  intro hjoin
  obtain ⟨⟨m, hm, hjoin'⟩, -⟩ := (ht.joins fun h => nomatch h).mp hjoin
  exact hno m (Option.some.inj hm) hjoin'

/-- A joiner that makes no announcement has made its last one when it did before. -/
theorem JoinerTurn.last_kept (ht : JoinerTurn limit h j b c d d' past now (some event) words)
    (hsilent : .join ∉ words) : d'.session.lastJoin = d.session.lastJoin :=
  (ht.lastJoin fun h => nomatch h).resolve_right hsilent

/-- A joiner that makes no announcement leaves a host without one. -/
theorem quiet_hear (hhost : Placed .host j c a past)
    (hroom : (waiting c).length + ms.length ≤ messageCapacity)
    (hwords : .join ∈ words ↔ ∃ n ∈ ms, IsJoin h j n) (hsilent : .join ∉ words)
    (hquiet : ∀ m ∈ came .host c past, ¬ IsJoin h j m) :
    ∀ m ∈ came .host (c.hear ms) (.turn .joiner now e :: past), ¬ IsJoin h j m := by
  have hhost' : Placed (facing .joiner) j c a past := hhost
  have hcame : came .host (c.hear ms) (.turn .joiner now e :: past) = _ := came_hear hhost' hroom
  intro m hm hjoin
  rw [hcame] at hm
  rcases List.mem_append.mp hm with hm | hm
  · exact hquiet m hm hjoin
  · split at hm
    · exact hsilent (hwords.mpr ⟨m, hm, hjoin⟩)
    · cases hm

/-- What a host that is bound has got stays with it. -/
theorem mem_came_hear {m : Message} (hhost : Placed .host j c a past)
    (hroom : (waiting c).length + ms.length ≤ messageCapacity) (hm : m ∈ came .host c past) :
    m ∈ came .host (c.hear ms) (.turn .joiner now e :: past) := by
  have hhost' : Placed (facing .joiner) j c a past := hhost
  have hcame : came .host (c.hear ms) (.turn .joiner now e :: past) = _ := came_hear hhost' hroom
  rw [hcame]
  exact List.mem_append_left _ hm

/-- Nothing of what the joiner says to a host that is bound is lost. -/
theorem Announced.kept_turn {b' : Binding} (hs : Present .host j c a past b')
    (hfair : ∀ t, ¬ List.Sublist [.bound .host, .turn .joiner t none] past)
    (hall : d.session.sent = came .host c past)
    (hroom : (waiting c).length + ms.length ≤ messageCapacity)
    (hsent : d'.session.sent = d.session.sent ++ ms) :
    Announced h j (c.hear ms) d' (.turn .joiner now e :: past) := by
  have hhost : Placed (facing .joiner) j c a past := Or.inr ⟨b', hs⟩
  have hcame : came .host (c.hear ms) (.turn .joiner now e :: past) = _ := came_hear hhost hroom
  have hother : Happening.turn .joiner now e ≠ .bound .host := fun h => nomatch h
  rw [hs.binding] at hcame
  refine .kept (fun t horder => hfair t ((order_cons hother).mp horder)) ?_ ?_
  · intro hnone
    rw [hs.binding_hear hroom] at hnone
    cases hnone
  · rw [hcame, hsent, hall]
    rfl

/-- The joiner takes up an announcement of the host after its own were lost. -/
theorem JoinerTurn.hears {m : Message}
    (ht : JoinerTurn limit h j b c d d' past now (some (.message m)) words)
    (hcame : came .host (c.hear ms) (.turn .joiner now (some (.message m)) :: past) =
      came .host c past ++ ms)
    (hwords : .join ∈ words ↔ ∃ n ∈ ms, IsJoin h j n) (hjoin : IsJoin j h m)
    (hpre : d.session.stage.isPreNegotiation = true)
    (hlast : d.session.lastJoin = some t₀)
    (horder : List.Sublist [.bound .host, .turn .joiner t₀ none] past)
    (honce : ∀ t, .turn .joiner t none ∈ past → t = t₀)
    (hdeaf : ∀ m ∈ heardBy .joiner past, ¬ IsJoin j h m)
    (hquiet : ∀ m ∈ came .host c past, ¬ IsJoin h j m)
    (hall : (c.hear ms).session.sent =
      came .joiner d' (.turn .joiner now (some (.message m)) :: past)) :
    Announced h j (c.hear ms) d' (.turn .joiner now (some (.message m)) :: past) := by
  have hjoins := ht.joins (fun h => nomatch h)
  rw [hlast] at hjoins
  have hheard : ∃ n ∈ heardBy .joiner (.turn .joiner now (some (.message m)) :: past),
      IsJoin j h n := ⟨m, by rw [heardBy_message]; exact List.mem_cons_self, hjoin⟩
  by_cases hsoon : now - t₀ < j.config.rejoinInterval
  · have hrecent : isRecent now j.config.rejoinInterval (some t₀) = true := decide_eq_true hsoon
    refine .missed ⟨t₀, now, m, horder.cons _, List.mem_cons_self, hjoin, hsoon⟩ hheard ?_ hall
    rw [hcame]
    intro n hn hjoin'
    rcases List.mem_append.mp hn with hn | hn
    · exact hquiet n hn hjoin'
    · have hlate := (hjoins.mp (hwords.mpr ⟨n, hn, hjoin'⟩)).2.2
      rw [hrecent] at hlate
      cases hlate
  · have hlate : isRecent now j.config.rejoinInterval (some t₀) = false := decide_eq_false hsoon
    obtain ⟨n, hn, hjoin'⟩ := hwords.mp (hjoins.mpr ⟨⟨m, rfl, hjoin⟩, hpre, hlate⟩)
    refine .answered ?_ hheard ⟨n, by rw [hcame]; exact List.mem_append_right _ hn, hjoin'⟩ hall
    intro t₁ t m' hlook htaken hjoin''
    have hlook' : t₁ = t₀ :=
      honce t₁ ((List.mem_cons.mp hlook).resolve_left fun h => nomatch h)
    subst hlook'
    rcases List.mem_cons.mp htaken with heq | htaken
    · cases heq
      exact Nat.le_of_not_lt hsoon
    · exact absurd hjoin'' (hdeaf m' (mem_heardBy.mpr ⟨t, htaken⟩))

/-- The joiner looks. -/
theorem Underway.announced_look (hx : Underway limit h j a b c d past)
    (ht : JoinerTurn limit h j b c d d' past now none words)
    (hroom : (waiting c).length + ms.length ≤ messageCapacity)
    (hsent : d'.session.sent = d.session.sent ++ ms) :
    Announced h j (c.hear ms) d' (.turn .joiner now none :: past) := by
  obtain ⟨hlast, hnone⟩ := ht.look rfl
  have hdeaf : ∀ m, m ∉ heardBy .joiner past :=
    List.eq_nil_iff_forall_not_mem.mp (heardBy_eq_nil hnone)
  cases hx.announced with
  | kept hfair halone hall =>
      rcases hx.host with habsent | ⟨b', hs⟩
      · refine .alone now ?_ hlast List.mem_cons_self ?_
        · rw [hear_of_none habsent.binding]
          exact habsent.binding
        · intro t hmem
          rcases List.mem_cons.mp hmem with heq | hmem
          · cases heq
            rfl
          · exact absurd hmem (hnone t none)
      · exact .kept_turn hs hfair hall hroom hsent
  | alone t₀ hhost hlast' hlook honce => exact absurd hlook (hnone t₀ none)
  | lost t₀ hlast' horder honce hdeaf' hquiet hall =>
      exact absurd (mem_turn_of_order horder) (hnone t₀ none)
  | missed hsoon hheard hquiet hall =>
      obtain ⟨m, hm, -⟩ := hheard
      exact absurd hm (hdeaf m)
  | answered hlate hheard hloud hall =>
      obtain ⟨m, hm, -⟩ := hheard
      exact absurd hm (hdeaf m)

/-- The joiner takes up an announcement of the host. -/
theorem Underway.announced_heard {m : Message} (hx : Underway limit h j a b c d past)
    (ht : JoinerTurn limit h j b c d d' past now (some (.message m)) words)
    (hroom : (waiting c).length + ms.length ≤ messageCapacity)
    (hsent : d'.session.sent = d.session.sent ++ ms)
    (hwords : .join ∈ words ↔ ∃ n ∈ ms, IsJoin h j n) (hjoin : IsJoin j h m) :
    Announced h j (c.hear ms) d' (.turn .joiner now (some (.message m)) :: past) := by
  have hwaiting : m ∈ waiting d := ht.waiting m rfl
  have hsent' : m ∈ c.session.sent := hx.toJoiner.sent hwaiting
  -- Only a host that is there can have sent it.
  obtain ⟨b', hs⟩ := hx.host.resolve_left fun habsent => by
    rw [habsent.sent] at hsent'
    cases hsent'
  cases hx.announced with
  | kept hfair halone hall => exact .kept_turn hs hfair hall hroom hsent
  | alone t₀ hhost hlast hlook honce =>
      rw [hs.binding] at hhost
      cases hhost
  | lost t₀ hlast horder honce hdeaf hquiet hall =>
      have hhost : Placed (facing .joiner) j c a past := hx.host
      have hcame : came .host (c.hear ms) (.turn .joiner now (some (.message m)) :: past) = _ :=
        came_hear hhost hroom
      rw [hs.binding] at hcame
      obtain ⟨b₂, hd⟩ := hx.joiner.resolve_left fun habsent =>
        habsent.idle t₀ none (mem_turn_of_order horder)
      have hopening := hx.joiner_waits hs hd fun m hm =>
        hquiet m (List.mem_append_left _ (List.mem_reverse.mpr hm))
      exact ht.hears hcame hwords hjoin hopening.stage hlast horder honce hdeaf hquiet
        (ht.all_came hall)
  | missed hsoon hheard hquiet hall => exact absurd hjoin (hx.once_heard hall hheard m hwaiting)
  | answered hlate hheard hloud hall => exact absurd hjoin (hx.once_heard hall hheard m hwaiting)

/-- The joiner takes up something else. -/
theorem Announced.other_event (ha : Announced h j c d past) (hhost : Placed .host j c a past)
    (ht : JoinerTurn limit h j b c d d' past now (some event) words)
    (hroom : (waiting c).length + ms.length ≤ messageCapacity)
    (hsent : d'.session.sent = d.session.sent ++ ms)
    (hwords : .join ∈ words ↔ ∃ n ∈ ms, IsJoin h j n)
    (hno : ∀ m, event = .message m → ¬ IsJoin j h m) :
    Announced h j (c.hear ms) d' (.turn .joiner now (some event) :: past) := by
  have hsilent := ht.silent hno
  have hlook : ∀ {t}, .turn .joiner t none ∈ (.turn .joiner now (some event) :: past) →
      .turn .joiner t none ∈ past :=
    fun hmem => (List.mem_cons.mp hmem).resolve_left fun h => nomatch h
  cases ha with
  | kept hfair halone hall =>
      obtain ⟨t, hlooked⟩ := ht.looked fun h => nomatch h
      obtain ⟨b', hs⟩ := hhost.resolve_left fun habsent => halone habsent.binding t hlooked
      exact .kept_turn hs hfair hall hroom hsent
  | alone t₀ habsent hlast hlooked honce =>
      refine .alone t₀ ?_ ((ht.last_kept hsilent).trans hlast) (List.mem_cons_of_mem _ hlooked)
        fun t hmem => honce t (hlook hmem)
      rw [hear_of_none habsent]
      exact habsent
  | lost t₀ hlast horder honce hdeaf hquiet hall =>
      refine .lost t₀ ((ht.last_kept hsilent).trans hlast) (horder.cons _)
        (fun t hmem => honce t (hlook hmem)) ?_ (quiet_hear hhost hroom hwords hsilent hquiet)
        (ht.all_came hall)
      intro m hm
      exact (mem_heardBy_turn.mp hm).elim (hno m) (hdeaf m)
  | missed hsoon hheard hquiet hall =>
      obtain ⟨m, hm, hjoin⟩ := hheard
      exact .missed (hsoon.cons _) ⟨m, mem_heardBy_turn.mpr (Or.inr hm), hjoin⟩
        (quiet_hear hhost hroom hwords hsilent hquiet) (ht.all_came hall)
  | answered hlate hheard hloud hall =>
      obtain ⟨m, hm, hjoin⟩ := hheard
      obtain ⟨n, hn, hjoin'⟩ := hloud
      refine .answered ?_ ⟨m, mem_heardBy_turn.mpr (Or.inr hm), hjoin⟩
        ⟨n, mem_came_hear hhost hroom hn, hjoin'⟩ (ht.all_came hall)
      intro t₀ t m' hlooked htaken hjoin''
      rcases List.mem_cons.mp htaken with heq | htaken
      · cases heq
        exact absurd hjoin'' (hno m' rfl)
      · exact hlate t₀ t m' (hlook hlooked) htaken hjoin''

/-- The joiner takes up an event. -/
theorem Underway.announced_event (hx : Underway limit h j a b c d past)
    (ht : JoinerTurn limit h j b c d d' past now (some event) words)
    (hroom : (waiting c).length + ms.length ≤ messageCapacity)
    (hsent : d'.session.sent = d.session.sent ++ ms)
    (hwords : .join ∈ words ↔ ∃ n ∈ ms, IsJoin h j n) :
    Announced h j (c.hear ms) d' (.turn .joiner now (some event) :: past) := by
  by_cases hjoin : ∃ m, event = .message m ∧ IsJoin j h m
  · obtain ⟨m, rfl, hjoin⟩ := hjoin
    exact hx.announced_heard ht hroom hsent hwords hjoin
  · exact hx.announced.other_event hx.host ht hroom hsent hwords
      fun m hm hjoin' => hjoin ⟨m, hm, hjoin'⟩

end

/-! ## Steps -/

@[simp] theorem turnsIn_turn (side : Role) (t : Instant) (e : Option Event)
    (past : List Happening) : turnsIn (.turn side t e :: past) = turnsIn past + 1 :=
  List.countP_cons_of_pos rfl

@[simp] theorem turnsIn_bound (side : Role) (past : List Happening) :
    turnsIn (.bound side :: past) = turnsIn past := List.countP_cons_of_neg Bool.false_ne_true

theorem weigh_reads_hear {near : Role} {l : Loopback} {ms : List Message}
    (hs : Placed near q c l past) (hroom : (waiting c).length + ms.length ≤ messageCapacity)
    (hreads : reads p ms = words) (speaker : Role) :
    weigh speaker (reads p (waiting (c.hear ms))) ≤
      weigh speaker (reads p (waiting c)) + weigh speaker words := by
  rw [waiting_hear hs hroom, reads_append, weigh_append]
  split
  · exact Nat.le_of_eq (by rw [hreads])
  · exact Nat.le_add_right ..

/-- **The host takes a turn.** -/
theorem Underway.after_host (hc : Couple limit hostAt joinerAt h j)
    (hx : Underway limit h j a b c d past) (htake : c.take? h now a.state errand = some (e, c')) :
    Underway limit h j ⟨a.state, c'.session.sent⟩ b c'
      (d.hear (c'.session.sent.drop c.session.sent.length)) (.turn .host now e :: past) := by
  obtain ⟨words, ht⟩ := hx.host_turn hc htake
  obtain ⟨b₁, hs⟩ := hx.host.resolve_left fun habsent => take_of_absent habsent htake
  obtain ⟨b₂, hs'⟩ := ht.turned.placed
  obtain ⟨ms, hsent, hreads, hlength⟩ := sent_of_utters ht.turned.utters
  rw [hsent, List.drop_left]
  have hjoiner : Placed (facing .host) h d b past := hx.joiner
  have hcost := hx.cost
  have hturn := ht.turned.cost
  simp only [facing] at hturn
  have hlong := hx.toJoiner.length_waiting (hx.host_part hs 0).host.clear .host
  have hwords := length_le_weigh .host words
  -- Nothing is lost for want of room: what waits weighs no more than the turns that are left.
  have hroom : (waiting d).length + ms.length ≤ messageCapacity := by
    simp only [messageCapacity]
    omega
  refine ⟨Or.inr ⟨b₂, hsent ▸ hs'⟩, hjoiner.hear hroom, ?_, ?_, ?_, ht.offers, ht.once, ?_, ?_⟩
  · intro t t'
    rw [ready_of_present hs', ready_hear hx.joiner hroom]
    exact ht.agreed t'
  · exact hx.toJoiner.turn hjoiner hroom hsent hreads ht.talk
  · exact hx.toHost.of_eq (by rw [Call.session_hear]) ht.turned.came
  · exact hx.announced.host_turn hs.isBound hs'.isBound hx.joiner hroom hsent ht.turned.came
  · have hweigh := weigh_reads_hear hx.joiner hroom hreads .host
    rw [turnsIn_turn, owes_hear hx.joiner hroom]
    omega

/-- **The joiner takes a turn.** -/
theorem Underway.after_joiner (hc : Couple limit hostAt joinerAt h j)
    (hx : Underway limit h j a b c d past) (htake : d.take? j now b.state errand = some (e, d')) :
    Underway limit h j a ⟨b.state, d'.session.sent⟩
      (c.hear (d'.session.sent.drop d.session.sent.length)) d' (.turn .joiner now e :: past) := by
  obtain ⟨words, ht⟩ := hx.joiner_turn hc htake
  obtain ⟨b₁, hs⟩ := hx.joiner.resolve_left fun habsent => take_of_absent habsent htake
  obtain ⟨b₂, hs'⟩ := ht.turned.placed
  obtain ⟨ms, hsent, hreads, hlength⟩ := sent_of_utters ht.turned.utters
  rw [hsent, List.drop_left]
  have hhost : Placed (facing .joiner) j c a past := hx.host
  have hcost := hx.cost
  have hturn := ht.turned.cost
  simp only [facing] at hturn
  have hclear := (hx.joiner_part hs 0).joiner.clear
  have hlong := hx.toHost.length_waiting hclear .joiner
  have hwords := length_le_weigh .joiner words
  have hroom : (waiting c).length + ms.length ≤ messageCapacity := by
    simp only [messageCapacity]
    omega
  have hread : ∀ n ∈ ms, ∃ signal, h.read? n = some ⟨j.sender, signal⟩ := by
    intro n hn
    refine (hclear.utters ht.turned.utters).read n ?_
    rw [hsent]
    exact List.mem_append_right _ hn
  refine ⟨hhost.hear hroom, Or.inr ⟨b₂, hsent ▸ hs'⟩, ?_, ?_, ?_, ?_, ?_, ?_, ?_⟩
  · intro t t'
    rw [ready_of_present hs', ready_hear hx.host hroom]
    exact ht.agreed t
  · exact hx.toJoiner.of_eq (by rw [Call.session_hear]) ht.turned.came
  · exact hx.toHost.turn hhost hroom hsent hreads ht.talk
  · rw [Call.session_hear]
    intro hoffers
    obtain ⟨m, hm, hjoin⟩ := hx.offers hoffers
    have hheard : heardBy .host (.turn .joiner now e :: past) = heardBy .host past :=
      heardBy_turn_facing
    exact ⟨m, by rw [hheard]; exact hm, hjoin⟩
  · rw [Call.session_hear]
    exact hx.once
  · cases e with
    | none => exact hx.announced_look ht hroom hsent
    | some event => exact hx.announced_event ht hroom hsent (hreads ▸ join_mem_reads hread)
  · have hweigh := weigh_reads_hear hx.host hroom hreads .joiner
    rw [turnsIn_turn, owes_hear hx.host hroom, Call.session_hear]
    omega

/-- Binding one side leaves the place of the other one. -/
theorem Placed.bound_facing {near : Role} {l : Loopback} (hs : Placed (facing near) q c l past) :
    Placed (facing near) q c l (.bound near :: past) := by
  have hother : ∀ {t e}, .turn (facing near) t e ∉ past →
      .turn (facing near) t e ∉ (.bound near :: past) :=
    fun hnone hmem => hnone ((List.mem_cons.mp hmem).resolve_left fun h => nomatch h)
  rcases hs with habsent | ⟨b, hpresent⟩
  · refine Or.inl ⟨habsent.call, habsent.loop, ?_, fun t e => hother (habsent.idle t e)⟩
    intro hmem
    rcases List.mem_cons.mp hmem with heq | hmem
    · cases near <;> cases heq
    · exact habsent.unbound hmem
  · refine Or.inr ⟨b, hpresent.binding, hpresent.channel, hpresent.loop, hpresent.chats,
      hpresent.capacity, ?_, ?_⟩
    · intro hfresh
      obtain ⟨hsent, hgathered, hpast⟩ := hpresent.fresh hfresh
      exact ⟨hsent, hgathered, fun t e => hother (hpast t e)⟩
    · intro hstarted
      obtain ⟨hseen, hjoin, hfound, t₀, hlook⟩ := hpresent.awake hstarted
      exact ⟨hseen, hjoin, hfound, t₀, List.mem_cons_of_mem _ hlook⟩

/-- A side that was just bound: it has said nothing, nothing has come to it, and it is as it would
have been ready. -/
structure Arrived (p : Party Probe) (near : Role) (c c' : Call Probe) (now : Instant)
    (past : List Happening) : Prop where
  bound : c'.binding.isSome = true
  sent : c'.session.sent = []
  waiting : waiting c' = []
  came : came near c' (.bound near :: past) = came near c past
  owes : owes near c' = owes near c
  ready : ∀ t, ready p near t c' = ready p near now c

theorem Absent.arrived {near : Role} {l : Loopback} {at' : Net.Address}
    (he : Equipped limit at' p) (h : Absent near c l past) (q : Party Probe) (now : Instant) :
    Placed near q (c.bind p now (number near)) ⟨⟨.connected, 1⟩, []⟩ (.bound near :: past) ∧
      Arrived p near c (c.bind p now (number near)) now past := by
  obtain ⟨b', hs, hfresh, hnone⟩ := h.bound he q now
  have hwaiting := hs.waiting_eq.trans hnone
  refine ⟨Or.inr ⟨b', hs⟩, hs.isBound, (hs.fresh hfresh).1, hwaiting, ?_, ?_, ?_⟩
  · rw [h.came, Duet.came, heardBy_bound, heardBy_eq_nil h.idle, hwaiting]
    rfl
  · simp only [Duet.owes, hs.binding, hfresh, h.binding, Bool.false_eq_true, if_false]
  · intro t
    rw [ready_of_present hs, Duet.ready, h.binding]
    rfl

/-- The host comes; what the joiner has said before is lost. -/
theorem Underway.announced_bind_host (hx : Underway limit h j a b c d past)
    (habsent : Absent .host c a past) (harrived : Arrived h .host c c' now past) :
    Announced h j c' d (.bound .host :: past) := by
  have hnone : came .joiner d past = [] := by
    obtain ⟨dropped, hdropped, -⟩ := hx.toJoiner
    rw [habsent.sent] at hdropped
    exact (List.append_eq_nil_iff.mp hdropped.symm).2
  cases hx.announced with
  | kept hfair halone hall =>
      refine .kept ?_ ?_ (by rw [harrived.came]; exact hall)
      · intro t horder
        rcases List.cons_sublist_cons'.mp horder with horder | ⟨-, hlook⟩
        · exact hfair t horder
        · exact halone habsent.binding t (List.singleton_sublist.mp hlook)
      · intro hbinding
        have hbound := harrived.bound
        rw [hbinding] at hbound
        cases hbound
  | alone t₀ hhost hlast hlook honce =>
      refine .lost t₀ hlast ((List.singleton_sublist.mpr hlook).cons_cons _) ?_ ?_ ?_ ?_
      · exact fun t hmem => honce t ((List.mem_cons.mp hmem).resolve_left fun h => nomatch h)
      · have hheard : heardBy .joiner past = [] :=
          List.reverse_eq_nil_iff.mp (List.append_eq_nil_iff.mp hnone).1
        intro m hm
        rw [heardBy_bound, hheard] at hm
        cases hm
      · intro m hm
        rw [harrived.came, habsent.came] at hm
        cases hm
      · exact harrived.sent.trans hnone.symm
  | lost t₀ hlast horder honce hdeaf hquiet hall =>
      exact absurd (horder.subset List.mem_cons_self) habsent.unbound
  | missed hsoon hheard hquiet hall =>
      obtain ⟨t₀, t, m, horder, -⟩ := hsoon
      exact absurd (horder.subset List.mem_cons_self) habsent.unbound
  | answered hlate hheard hloud hall =>
      obtain ⟨m, hm, -⟩ := hloud
      rw [habsent.came] at hm
      cases hm

/-- The joiner comes; nothing was lost. -/
theorem Underway.announced_bind_joiner (hx : Underway limit h j a b c d past)
    (habsent : Absent .joiner d b past) (harrived : Arrived j .joiner d d' now past) :
    Announced h j c d' (.bound .joiner :: past) := by
  have hdeaf : ∀ m, m ∉ heardBy .joiner past :=
    List.eq_nil_iff_forall_not_mem.mp (heardBy_eq_nil habsent.idle)
  have hother : Happening.bound .joiner ≠ .bound .host := fun h => nomatch h
  cases hx.announced with
  | kept hfair halone hall =>
      refine .kept (fun t horder => hfair t ((order_cons hother).mp horder)) ?_ ?_
      · intro hnone t hmem
        exact halone hnone t ((List.mem_cons.mp hmem).resolve_left fun h => nomatch h)
      · rw [harrived.sent, ← habsent.sent]
        exact hall
  | alone t₀ hhost hlast hlook honce => exact absurd hlook (habsent.idle t₀ none)
  | lost t₀ hlast horder honce hdeaf' hquiet hall =>
      exact absurd (mem_turn_of_order horder) (habsent.idle t₀ none)
  | missed hsoon hheard hquiet hall =>
      obtain ⟨m, hm, -⟩ := hheard
      exact absurd hm (hdeaf m)
  | answered hlate hheard hloud hall =>
      obtain ⟨m, hm, -⟩ := hheard
      exact absurd hm (hdeaf m)

/-- **The host is bound.** -/
theorem Underway.bind_host (hc : Couple limit hostAt joinerAt h j)
    (hx : Underway limit h j a b c d past) (habsent : Absent .host c a past) (now : Instant) :
    Underway limit h j ⟨⟨.connected, 1⟩, []⟩ b (c.bind h now (number .host)) d
      (.bound .host :: past) := by
  obtain ⟨hplaced, harrived⟩ := habsent.arrived hc.host j now
  generalize c.bind h now (number .host) = c' at *
  have hjoiner : Placed (facing .host) h d b past := hx.joiner
  have hsilent : c'.session.sent = c.session.sent := harrived.sent.trans habsent.sent.symm
  have hsaid : c'.session.said j = c.session.said j := by
    rw [said_eq_reads, said_eq_reads, hsilent]
  have hoffers : c'.session.offers j = c.session.offers j := by
    rw [Session.offers, hsaid]
    rfl
  have hwaiting : waiting c = [] := (List.append_eq_nil_iff.mp habsent.came).2
  refine ⟨hplaced, hjoiner.bound_facing, ?_, ?_, ?_, ?_, ?_, ?_, ?_⟩
  · intro t t'
    rw [harrived.ready]
    exact hx.agreed now t'
  · exact hx.toJoiner.of_eq hsilent rfl
  · exact hx.toHost.of_eq rfl harrived.came
  · rw [hoffers]
    exact hx.offers
  · rw [hsaid]
    exact hx.once
  · exact hx.announced_bind_host habsent harrived
  · rw [turnsIn_bound, harrived.owes, reserve_eq hoffers, harrived.waiting, ← hwaiting]
    exact hx.cost

/-- **The joiner is bound.** -/
theorem Underway.bind_joiner (hc : Couple limit hostAt joinerAt h j)
    (hx : Underway limit h j a b c d past) (habsent : Absent .joiner d b past) (now : Instant) :
    Underway limit h j a ⟨⟨.connected, 1⟩, []⟩ c (d.bind j now (number .joiner))
      (.bound .joiner :: past) := by
  obtain ⟨hplaced, harrived⟩ := habsent.arrived hc.joiner h now
  generalize d.bind j now (number .joiner) = d' at *
  have hhost : Placed (facing .joiner) j c a past := hx.host
  have hsilent : d'.session.sent = d.session.sent := harrived.sent.trans habsent.sent.symm
  have hwaiting : waiting d = [] := (List.append_eq_nil_iff.mp habsent.came).2
  refine ⟨hhost.bound_facing, hplaced, ?_, ?_, ?_, hx.offers, hx.once, ?_, ?_⟩
  · intro t t'
    rw [harrived.ready]
    exact hx.agreed t now
  · exact hx.toJoiner.of_eq rfl harrived.came
  · exact hx.toHost.of_eq hsilent rfl
  · exact hx.announced_bind_joiner habsent harrived
  · rw [turnsIn_bound, harrived.owes, harrived.waiting, ← hwaiting]
    exact hx.cost

/-- What a device does to its channels when it is bound is no business of the other one. -/
theorem agreed_connect {x : Exchange} (hx : Agreed limit h j x) (channel channel' : Nat) :
    Agreed limit h j { x with
      host := x.host.after (does (.connect channel))
      joiner := x.joiner.after (does (.connect channel')) } := by
  have hhost : Chats h j (does (.connect channel)) x.host.bare :=
    chats_silent (runs_does rfl rfl) (Undisturbed.refl j _)
  have hjoiner : Chats j h (does (.connect channel')) x.joiner.bare :=
    chats_silent (runs_does rfl rfl) (Undisturbed.refl h _)
  obtain ⟨hpart, hmode, hoffers⟩ := hx.host.chats hhost
  obtain ⟨hpart', hanswers⟩ := hx.joiner.chats hjoiner
  refine ⟨hpart, ?_, fun answer ha => hoffers.trans (hx.answered answer (hanswers answer ha))⟩
  rw [hmode]
  exact hpart'

/-- Before anything happens. -/
theorem underway_start (hc : Couple limit hostAt joinerAt h j) :
    Underway limit h j .idle .idle (.start (.start 1)) (.start (.start 2)) [] := by
  have hnone : ∀ (side : Role) t e, Happening.turn side t e ∉ ([] : List Happening) :=
    fun _ _ _ => List.not_mem_nil
  refine ⟨Or.inl ⟨rfl, rfl, List.not_mem_nil, hnone _⟩,
    Or.inl ⟨rfl, rfl, List.not_mem_nil, hnone _⟩, ?_,
    ⟨[], rfl, fun _ h => absurd h List.not_mem_nil⟩,
    ⟨[], rfl, fun _ h => absurd h List.not_mem_nil⟩, fun h => absurd rfl h, Nat.zero_le _, ?_,
    Nat.le_refl _⟩
  · intro t t'
    exact agreed_connect (agreed_opened hc 1 2 t t' 0 1) 0 1
  · exact .kept (fun t h => nomatch h) (fun _ t => hnone _ t _) rfl

/-- What holds all the time of a meeting. -/
def Meeting.Holds (limit : Nat) (h j : Party Probe) (m : Meeting) : Prop :=
  ∃ now a b c d, m.world = Duet.world .host now a b (h, c) (j, d) ∧
    Underway limit h j a b c d m.past

/-- **Every move keeps the invariant.** -/
theorem Meeting.holds_step {m m' : Meeting} {move : Move} (hc : Couple limit hostAt joinerAt h j)
    (hm : m.Holds limit h j) (hstep : m.step? move = some m') : m'.Holds limit h j := by
  obtain ⟨world', past⟩ := m
  obtain ⟨now, a, b, c, d, rfl, hx⟩ := hm
  cases move with
  | wait t =>
      cases hstep
      exact ⟨now + t, a, b, c, d, rfl, hx⟩
  | bind side =>
      simp only [Meeting.step?] at hstep
      split at hstep
      · cases hstep
      rename_i hfree
      cases hstep
      cases side with
      | host =>
          have habsent := hx.host.resolve_right fun ⟨b', hs⟩ => hfree hs.isBound
          exact ⟨now, _, b, _, d, habsent.bind_world hc.host now, hx.bind_host hc habsent now⟩
      | joiner =>
          have habsent := hx.joiner.resolve_right fun ⟨b', hs⟩ => hfree hs.isBound
          exact ⟨now, a, _, c, _, habsent.bind_world hc.joiner now, hx.bind_joiner hc habsent now⟩
  | turn side errand =>
      obtain ⟨⟨e, w⟩, htake, heq⟩ := Option.map_eq_some_iff.mp hstep
      cases heq
      cases side with
      | host =>
          rcases hx.host with habsent | ⟨b', hs⟩
          · exact absurd htake (by rw [habsent.take_world]; exact Option.some_ne_none _ ∘ Eq.symm)
          · have hjoiner : Placed (facing .host) h d b past := hx.joiner
            rw [take_placed hs hjoiner] at htake
            obtain ⟨⟨e, c'⟩, hcall, heq⟩ := Option.map_eq_some_iff.mp htake
            cases heq
            exact ⟨now, _, b, c', _, rfl, hx.after_host hc hcall⟩
      | joiner =>
          change (Duet.world .joiner now b a (j, d) (h, c)).take? (number .joiner) errand = _
            at htake
          rcases hx.joiner with habsent | ⟨b', hs⟩
          · exact absurd htake (by rw [habsent.take_world]; exact Option.some_ne_none _ ∘ Eq.symm)
          · have hhost : Placed (facing .joiner) j c a past := hx.host
            rw [take_placed hs hhost] at htake
            obtain ⟨⟨e, d'⟩, hcall, heq⟩ := Option.map_eq_some_iff.mp htake
            cases heq
            exact ⟨now, a, _, _, d', rfl, hx.after_joiner hc hcall⟩

/-- **The invariant holds all the way.** -/
theorem Meeting.holds_run {m m' : Meeting} {moves : List Move}
    (hc : Couple limit hostAt joinerAt h j) (hm : m.Holds limit h j)
    (hrun : m.run? moves = some m') : m'.Holds limit h j := by
  induction moves generalizing m with
  | nil =>
      cases hrun
      exact hm
  | cons move moves ih =>
      obtain ⟨m₁, hstep, hrest⟩ := Option.bind_eq_some_iff.mp hrun
      exact ih (holds_step hc hm hstep) hrest

/-! ## The end of a meeting -/

/-- A side for which nothing waits has looked, and has nothing to hear. -/
theorem Present.idle {near : Role} {l l' : Loopback} {b' : Binding}
    (hs : Present near q c l past b')
    (h : (Duet.world near now l l' (p, c) (q, d)).turn? (number near) = none) :
    b'.started = true ∧ waiting c = [] := by
  have hturn := turn_of_world hs.channel h
  rw [Call.turn?_eq, List.findSome?_eq_none_iff] at hturn
  have hnone := Option.map_eq_none_iff.mp (hturn .message (by decide))
  simp only [Call.take?, hs.binding, Option.bind_eq_bind, Option.bind_some] at hnone
  split at hnone
  · rename_i hstarted
    refine ⟨hstarted, ?_⟩
    rw [hs.waiting_eq]
    cases hwaiting : b'.messages.waiting with
    | nil => rfl
    | cons m rest =>
        simp only [Binding.take?, hwaiting, Option.bind_some] at hnone
        cases hnone
  · cases hnone

/-- All that came to a side for which nothing waits was heard. -/
theorem mem_heardBy_of_came {near : Role} {m : Message} (hwaiting : waiting c = [])
    (hm : m ∈ came near c past) : m ∈ heardBy near past := by
  rw [came, hwaiting, List.append_nil] at hm
  exact List.mem_reverse.mp hm

/-- All that was sent to a side for which nothing waits was heard, but for small talk at first. -/
theorem Reaches.heard {far : Role} (hflow : Reaches p q far c d past) (hwaiting : waiting d = []) :
    ∀ m ∈ c.session.sent, ∀ signal, q.read? m = some ⟨p.sender, signal⟩ →
      m ∈ heardBy far past ∨ SmallTalk p signal := by
  obtain ⟨dropped, hsent, hsmall⟩ := hflow
  intro m hm signal hread
  rw [hsent] at hm
  rcases List.mem_append.mp hm with hm | hm
  · exact Or.inr (hsmall m hm signal hread)
  · exact Or.inl (mem_heardBy_of_came hwaiting hm)

/-- Once nothing waits, an announcement of the joiner was heard, unless it has heard the host too
soon. -/
theorem Underway.announced_end (hx : Underway limit h j a b c d past) {b₁ b₂ : Binding}
    (hs : Present .host j c a past b₁) (hd : Present .joiner h d b past b₂)
    (hstarted : b₁.started = true) (hstarted' : b₂.started = true)
    (hwaiting : waiting c = []) (hwaiting' : waiting d = []) :
    (¬ TooSoon h j past → ∃ m ∈ heardBy .host past, IsJoin h j m) ∧
      (TooSoon h j past → ∀ m ∈ heardBy .host past, ¬ IsJoin h j m) := by
  have hagreed := hx.joiner_part hd 0
  rw [ready_of_present hs] at hagreed
  cases hx.announced with
  | kept hfair halone hall =>
      obtain ⟨m, hm, hjoin⟩ := hagreed.joiner.clear.sent_of_said (hd.awake hstarted').2.1
      rw [hall] at hm
      refine ⟨fun _ => ⟨m, mem_heardBy_of_came hwaiting hm, hjoin⟩, ?_⟩
      rintro ⟨t₀, t, m, horder, -⟩
      exact absurd horder (hfair t₀)
  | alone t₀ hhost hlast hlook honce =>
      rw [hs.binding] at hhost
      cases hhost
  | lost t₀ hlast horder honce hdeaf hquiet hall =>
      obtain ⟨m, hm, hjoin⟩ := hagreed.host.clear.sent_of_said (hs.awake hstarted).2.1
      rw [hall] at hm
      exact absurd hjoin (hdeaf m (mem_heardBy_of_came hwaiting' hm))
  | missed hsoon hheard hquiet hall =>
      refine ⟨fun h => absurd hsoon h, fun _ m hm => hquiet m ?_⟩
      exact List.mem_append_left _ (List.mem_reverse.mpr hm)
  | answered hlate hheard hloud hall =>
      obtain ⟨m, hm, hjoin⟩ := hloud
      refine ⟨fun _ => ⟨m, mem_heardBy_of_came hwaiting hm, hjoin⟩, ?_⟩
      rintro ⟨t₀, t, n, horder, htaken, hjoin', hlt⟩
      exact absurd hlt (Nat.not_lt.mpr (hlate t₀ t n (mem_turn_of_order horder) htaken hjoin'))

/-- **What both sides have come to** once both are bound and nothing waits for them. -/
theorem Underway.ends (hx : Underway limit h j a b c d past) {b₁ b₂ : Binding}
    (hs : Present .host j c a past b₁) (hd : Present .joiner h d b past b₂)
    (hstarted : b₁.started = true) (hstarted' : b₂.started = true)
    (hwaiting : waiting c = []) (hwaiting' : waiting d = []) :
    (¬ TooSoon h j past → (∃ m ∈ heardBy .host past, IsJoin h j m) ∧ c.session.offers j = 1 ∧
      c.session.stage = .linkEstablished ∧ d.session.stage = .linkEstablished) ∧
    (TooSoon h j past → (∀ m ∈ heardBy .host past, ¬ IsJoin h j m) ∧ c.session.offers j = 0 ∧
      c.session.stage = .peerFound ∧ d.session.stage = .peerFound) := by
  obtain ⟨hfound, hmissed⟩ := hx.announced_end hs hd hstarted hstarted' hwaiting hwaiting'
  have hagreed := hx.joiner_part hd 0
  rw [ready_of_present hs] at hagreed
  refine ⟨fun hfair => ?_, fun hsoon => ?_⟩
  · have hjoin := hfound hfair
    obtain ⟨hoffered, hlinking, hlinking', -⟩ :=
      hagreed.completes hjoin (hx.toHost.heard hwaiting) (hx.toJoiner.heard hwaiting')
    exact ⟨hjoin, hoffered.once, hlinking.stage, hlinking'.stage⟩
  · have hnone := hmissed hsoon
    have hzero : c.session.offers j = 0 := by
      by_contra hoffers
      obtain ⟨m, hm, hjoin⟩ := hx.offers hoffers
      exact hnone m hm hjoin
    have hopening : Opening c.session.bare := by
      rcases hagreed.host.phase with ⟨-, hopening⟩ | hoffered
      · exact hopening
      · have honce : c.session.offers j = 1 := hoffered.once
        rw [hzero] at honce
        cases honce
    have hopening' := hx.joiner_waits hs hd hnone
    exact ⟨hnone, hzero, (hs.awake hstarted).2.2.1 hopening.report,
      (hd.awake hstarted').2.2.1 hopening'.report⟩

/-- **Rendezvous in either order.** A host and a joiner are bound once each, in either order and
with any delay, and take turns with what waits for them, in any order and at any time. Together they
take 21 turns at most, so that at some time nothing waits for them any more. If both ends of the
channel are connected then, the host has heard an announcement of the joiner and has offered, once,
and both calls are established, unless the joiner heard the host too soon after a greeting that
nobody heard. If it did, the host has heard no announcement and has not offered, and both wait for
each other. -/
theorem rendezvous {m : Meeting} {moves : List Move} (hc : Couple limit hostAt joinerAt h j)
    (hrun : (Meeting.start h j).run? moves = some m) :
    turnsIn m.past ≤ 21 ∧ (m.Connected → m.Idle →
      (¬ TooSoon h j m.past →
        (∃ n ∈ heardBy .host m.past, IsJoin h j n) ∧ (m.call .host).session.offers j = 1 ∧
        (m.call .host).session.stage = .linkEstablished ∧
        (m.call .joiner).session.stage = .linkEstablished) ∧
      (TooSoon h j m.past →
        (∀ n ∈ heardBy .host m.past, ¬ IsJoin h j n) ∧ (m.call .host).session.offers j = 0 ∧
        (m.call .host).session.stage = .peerFound ∧
        (m.call .joiner).session.stage = .peerFound)) := by
  have hstart : (Meeting.start h j).Holds limit h j :=
    ⟨0, _, _, _, _, rfl, underway_start hc⟩
  obtain ⟨now, a, b, c, d, hworld, hx⟩ := Meeting.holds_run hc hstart hrun
  obtain ⟨world', past⟩ := m
  cases hworld
  have hturns : turnsIn past ≤ 21 := by
    have hcost : turnsIn past + owes .host c + owes .joiner d + reserve j c.session +
      weigh .joiner (reads h (waiting c)) + weigh .host (reads j (waiting d)) ≤ 21 := hx.cost
    omega
  refine ⟨hturns, fun hconnected hidle => ?_⟩
  obtain ⟨b₁, hs⟩ := hx.host.resolve_left fun habsent => by
    have hstate : a.state.value = .connected := hconnected .host
    rw [habsent.loop] at hstate
    cases hstate
  obtain ⟨b₂, hd⟩ := hx.joiner.resolve_left fun habsent => by
    have hstate : b.state.value = .connected := hconnected .joiner
    rw [habsent.loop] at hstate
    cases hstate
  obtain ⟨hstarted, hwaiting⟩ := hs.idle (hidle .host)
  have hidle' : (Duet.world .joiner now b a (j, d) (h, c)).turn? (number .joiner) = none :=
    hidle .joiner
  obtain ⟨hstarted', hwaiting'⟩ := hd.idle hidle'
  exact hx.ends hs hd hstarted hstarted' hwaiting hwaiting'

end

/-- The joiner is there first. Its interval is over when the host comes. -/
def lateHost : List Move :=
  [.bind .joiner, .turn .joiner .channel, .wait joinerGreeter.config.rejoinInterval, .bind .host,
    .turn .host .channel, .turn .joiner .message, .turn .host .message, .turn .host .engine,
    .turn .host .candidate, .turn .joiner .message, .turn .joiner .message, .turn .joiner .message,
    .turn .host .message, .turn .host .engine, .turn .joiner .message, .turn .joiner .engine,
    .turn .joiner .candidate, .turn .host .message]

/-- A joiner that is there first hears the host late enough, and both are connected. -/
theorem rendezvous_late_host : ∃ m,
    (Meeting.start hostGreeter joinerGreeter).run? lateHost = some m ∧ m.Connected ∧ m.Idle ∧
      (m.call .host).session.offers joinerGreeter = 1 ∧
      (m.call .host).session.stage = .linkEstablished ∧
      (m.call .joiner).session.stage = .linkEstablished := by
  have hrun : ((Meeting.start hostGreeter joinerGreeter).run? lateHost).any (fun m =>
      decide (m.Connected ∧ m.Idle ∧ ¬ TooSoon hostGreeter joinerGreeter m.past)) = true := by
    decide +kernel
  obtain ⟨m, hm, hend⟩ := (Option.any_eq_true _ _).mp hrun
  obtain ⟨hconnected, hidle, hfair⟩ := of_decide_eq_true hend
  obtain ⟨-, hends⟩ := rendezvous couple_greeters hm
  obtain ⟨-, honce, hhost, hjoiner⟩ := (hends hconnected hidle).1 hfair
  exact ⟨m, hm, hconnected, hidle, honce, hhost, hjoiner⟩

/-- The joiner is there first. Its interval is not over when the host comes. -/
def earlyHost : List Move :=
  [.bind .joiner, .turn .joiner .channel, .bind .host, .turn .host .channel, .turn .joiner .message,
    .turn .joiner .message]

/-- **The two can miss each other**: both ends are connected and nothing waits, but the host has
heard no announcement and has not offered. -/
theorem rendezvous_missed : ∃ m,
    (Meeting.start hostGreeter joinerGreeter).run? earlyHost = some m ∧ m.Connected ∧ m.Idle ∧
      heardBy .host m.past = [] ∧ (m.call .host).session.offers joinerGreeter = 0 ∧
      (m.call .host).session.stage = .peerFound ∧ (m.call .joiner).session.stage = .peerFound := by
  have hrun : ((Meeting.start hostGreeter joinerGreeter).run? earlyHost).any (fun m =>
      decide (m.Connected ∧ m.Idle ∧ heardBy .host m.past = [] ∧
        (m.call .host).session.offers joinerGreeter = 0 ∧
        (m.call .host).session.stage = .peerFound ∧
        (m.call .joiner).session.stage = .peerFound)) = true := by
    decide +kernel
  obtain ⟨m, hm, hend⟩ := (Option.any_eq_true _ _).mp hrun
  exact ⟨m, hm, of_decide_eq_true hend⟩

end PeerCall.Rehearsal.Duet
