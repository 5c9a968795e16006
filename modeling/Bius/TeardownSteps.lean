import Bius.TeardownPlaces

/- What the steps of `bius_queue_rq`, `bius_dev_read`, `bius_dev_write` and
   `bius_dev_release` do to the places of the requests. -/
namespace Bius.Teardown

open Dlist

variable {sema : Nat → Nat → UInt8} {s s' : State} {v : View} {t : Tid} {r : Ref}

theorem Others.of_eq (hreq : s'.req = s.req) (hbusy : s'.busy = s.busy) (halive : s'.alive = s.alive)
    (hsem : s'.sem = s.sem) (hz : s'.zonesCalls = s.zonesCalls) : Others s s' r :=
  ⟨fun _ _ => by rw [hreq], fun _ _ => by rw [hbusy],
    fun _ _ => by rw [halive], fun _ _ => by rw [hsem], Nat.le_of_eq hz.symm⟩

theorem refOk_of_eq (hreq : s'.req = s.req) (hbusy : s'.busy = s.busy) (halive : s'.alive = s.alive)
    (hsem : s'.sem = s.sem) (hz : s'.zonesCalls = s.zonesCalls) (hr : RefOk sema s r) : RefOk sema s' r := by
  cases r with
  | slot p => unfold RefOk; rw [hreq, hbusy]; exact hr
  | zones k => unfold RefOk; rw [hreq, halive, hsem, hz]; exact hr

theorem Sound.off (h : Sound sema s v) (hh : (s.call t).holds = some r) (hat : ∀ c, s.call t ≠ .relAt c (.req r))
    (hnext : ∀ u c, s.call u ≠ .relNext c (.req r)) (hd : ∀ p, r = .slot p → ¬ s.Drained p) : Off s v r := by
  have hplace := (h.books.held r t).2 hh
  refine ⟨fun hp => ?_, fun c hw => ?_, fun c => ?_⟩
  · rcases (h.books.pend_iff r).1 hp with hp | ⟨p, heq, hdr⟩
    · rw [hplace] at hp; cases hp
    · exact hd p heq hdr
  · rw [(h.books.wait_iff c r).1 hw] at hplace; cases hplace
  · rintro ⟨u, hu | ⟨hu, -⟩⟩
    · exact hnext u c hu
    · have := (h.books.held r u).2 (by rw [hu]; rfl)
      rw [hplace] at this
      cases this
      exact hat c hu

theorem Sound.off_held (h : Sound sema s v) (hh : (s.call t).holds = some r) (hq : s.call t ≠ .queueing r)
    (hl : (s.call t).loops = none) : Off s v r := by
  refine h.off hh (fun c hc => by rw [hc] at hl; cases hl) (fun u c hu => ?_)
    (fun p hp => h.books.held_not_drained hh hq hp)
  rcases h.books.loose_place (h.loops.stand u c r hu) with hf | ⟨w, hw, hcall⟩
  · rw [(h.books.held r t).2 hh] at hf; cases hf
  · rw [(h.books.held r t).2 hh] at hw
    cases hw
    exact hq hcall

/-! ## The pending list -/

theorem Sound.insert (h : Sound sema s v) (hp : Points (s.insert t r)) (ht : s.call t = .queueing r)
    (hnext : ∀ u c, s.call u ≠ .relNext c (.req r)) (hd : ∀ p, r = .slot p → ¬ s.Drained p) :
    Sound sema (s.insert t r)
      { v with place := Function.update v.place r .pending, pending := v.pending ++ [r] } := by
  have hb := h.books
  have hm := insert_moves (s := s) t r
  have hh : (s.call t).holds = some r := by rw [ht]; rfl
  have hplace := (hb.held r t).2 hh
  have hoff := h.off hh (fun c hc => by rw [ht] at hc; cases hc) hnext hd
  have hxl : r.inserted.loops = none := by cases r <;> rfl
  have hxh : r.inserted.holds = none := by cases r <;> rfl
  have hxr : r.inserted.removes = false := by cases r <;> rfl
  have hlinks : (s.insert t r).links = s.links.addTail (.req r) .pending := by cases r <;> rfl
  have hended : (s.insert t r).ended = s.ended := by cases r <;> rfl
  have hreq : (s.insert t r).req = s.req := by cases r <;> rfl
  have hbusy : (s.insert t r).busy = s.busy := by cases r <;> rfl
  have halive : (s.insert t r).alive = s.alive := by cases r <;> rfl
  have hsem : (s.insert t r).sem = s.sem := by cases r <;> rfl
  have hz : (s.insert t r).zonesCalls = s.zonesCalls := by cases r <;> rfl
  have ho : Others s (s.insert t r) r := .of_eq hreq hbusy halive hsem hz
  refine ⟨hp, (h.rings.addPending h.apart hoff hlinks hm.opened (fun c n hc => cursor_keep hm hxl hc)).rePlace _,
    ⟨fun r' => ?_, hb.wait_update (by rw [hplace]; simp) (by simp), hb.wait_nodup, hb.held_drop hm hh hxh (by simp),
      hb.live_update ho (fun _ => refOk_of_eq hreq hbusy halive hsem hz (hb.live r (by rw [hplace]; simp))),
      hb.idle_update ho (fun p _ hc => by cases hc), fun p hdr => ?_⟩,
    h.loops.other hm (by rw [ht]; rfl) hxl (fun c _ => rfl) h.loops.attached h.points (fun u c r' hu hl => ?_), ?_, ?_⟩
  · simp only [drained_congr hended, List.mem_append, List.mem_singleton, Function.update_apply, hb.pend_iff]
    by_cases heq : r' = r
    · simp [heq]
    · simp [heq]
  · have hdr' := (drained_congr hended p).1 hdr
    obtain ⟨h₁, h₂⟩ := hb.drained p hdr'
    have hne : Ref.slot p ≠ r := fun heq => hd p heq.symm hdr'
    refine ⟨hm.removing ▸ h₁, loose_keep hm ?_ (by simp [hne]) h₂⟩
    rw [ht]
    simpa using hne.symm
  · have hne : r' ≠ r := fun heq => hnext u c (heq ▸ hu)
    refine loose_keep hm ?_ (by simp [hne]) hl
    rw [ht]
    simpa using hne.symm
  · refine h.drain.other hm hxr (drained_congr hended)
      (fun a b hab hb' _ => ⟨b ++ [r], ?_, fun r' hr' => ?_, fun r' b₁ hb₁ => ?_⟩)
    · simp [hab]
    · simp only [Function.update_apply]
      split
      · rfl
      · next hne =>
        rcases List.mem_append.1 hr' with hr' | hr'
        · exact hb' r' hr'
        · exact absurd (List.mem_singleton.1 hr') hne
    · exact ⟨b₁ ++ [r], by rw [hb₁]; rfl⟩
  · cases r <;> exact h.fresh

theorem Sound.pending_first (h : Sound sema s v) (hr : s.links.next .pending = .req r) :
    ∃ rest, v.pending = r :: rest := by
  have hfirst := h.rings.pend.first
  rw [hr] at hfirst
  cases hv : v.pending with
  | nil => simp [hv] at hfirst
  | cons r' rest =>
    simp only [hv, List.map_cons, List.cons_append, List.head_cons, Node.req.injEq] at hfirst
    exact ⟨rest, by rw [hfirst]⟩

/-- Nobody reads while the device is removed, so nothing is drained. -/
theorem Sound.not_removing (h : Sound sema s v) {c : Nat} (huse : (s.call t).uses = some c) : s.removing = false := by
  cases hr : s.removing with
  | false => rfl
  | true =>
    have := (h.points.uses t c huse).2
    rw [h.points.removing hr c] at this
    cases this

theorem union_refOk {u : Union} (hr : RefOk sema s r)
    (hu : (s.req r).union = u ∨ requestMayHaveData (s.req r).type = true)
    (hreq : s'.req r = { s.req r with union := u }) (hbusy : s'.busy = s.busy) (halive : s'.alive = s.alive)
    (hsem : s'.sem = s.sem) (hz : s'.zonesCalls = s.zonesCalls) : RefOk sema s' r := by
  cases r with
  | slot p =>
    simp only [RefOk] at hr ⊢
    rw [hreq, hbusy]
    exact hr
  | zones k =>
    simp only [RefOk] at hr ⊢
    rcases hu with hu | hu
    · rw [hreq, halive, hsem, hz, ← hu]; exact hr
    · rw [hr.2.2.2.2.1] at hu; cases hu

theorem Sound.takePending (h : Sound sema s v) (hp : Points s') {c : Nat} {rest : List Ref} (ht : s.call t = .readWait c)
    (hrest : v.pending = r :: rest) (hm : Moves s s' t (.readTaken c r)) (hlinks : s'.links = s.links.del (.req r) .poison)
    (ho : Others s s' r) (hr : RefOk sema s r → RefOk sema s' r) (hended : s'.ended = s.ended)
    (hstale : s'.stale = s.stale) :
    Sound sema s' { v with place := Function.update v.place r (.held t), pending := rest } := by
  have hb := h.books
  have hquiet := h.not_removing (t := t) (c := c) (by rw [ht]; rfl)
  have hnd : ∀ p, ¬ s.Drained p := fun p hd => by rw [(hb.drained p hd).1] at hquiet; cases hquiet
  have hplace : v.place r = .pending := by
    rcases (hb.pend_iff r).1 (by rw [hrest]; simp) with hp | ⟨p, -, hd⟩
    · exact hp
    · exact absurd hd (hnd p)
  have hnotin : r ∉ rest := by
    have := h.rings.pend.nodup
    rw [hrest, List.map_cons] at this
    intro hmem
    exact (List.nodup_cons.1 (List.nodup_cons.1 this).2).1 (List.mem_map_of_mem hmem)
  have hloose : ∀ r', Loose s v r' →
      Loose s' { v with place := Function.update v.place r (.held t), pending := rest } r' := by
    intro r' hl
    have hne : r' ≠ r := fun heq => (hb.loose_not hl).1 (heq ▸ hplace)
    exact loose_keep hm (by rw [ht]; simp) (by simp [hne]) hl
  refine ⟨hp, (h.rings.delPending h.apart hrest hlinks hm.opened (fun c n hc => cursor_keep hm rfl hc)).rePlace _,
    ⟨fun r' => ?_, hb.wait_update (by rw [hplace]; simp) (by simp), hb.wait_nodup,
      hb.held_grab hm (by rw [ht]; rfl) rfl (fun u => by rw [hplace]; simp),
      hb.live_update ho (fun _ => hr (hb.live r (by rw [hplace]; simp))), hb.idle_update ho (fun p _ hc => by cases hc),
      fun p hd => absurd ((drained_congr hended p).1 hd) (hnd p)⟩,
    h.loops.other hm (by rw [ht]; rfl) rfl (fun c _ => rfl) h.loops.attached h.points
      (fun _ _ r' _ hl => hloose r' hl), ?_,
    hstale ▸ h.fresh⟩
  · have hiff := hb.pend_iff r'
    rw [hrest, List.mem_cons] at hiff
    simp only [drained_congr hended]
    by_cases heq : r' = r
    · subst heq
      simp only [Function.update_self, reduceCtorEq, false_or]
      exact ⟨fun hc => absurd hc hnotin, fun ⟨p, _, hd⟩ => absurd hd (hnd p)⟩
    · simp only [Function.update_of_ne heq]
      simpa [heq] using hiff
  · refine h.drain.other hm rfl (drained_congr hended) (fun _ _ _ _ hrem => ?_)
    obtain ⟨w, hw⟩ := hrem
    rw [h.points.removes w hw] at hquiet
    cases hquiet

/-! ## The lists of the connections -/

/-- The command is sent, and the request waits for its reply. -/
theorem Sound.sent (h : Sound sema s v) (hp : Points s') {c : Nat} (ht : s.call t = .readTaken c r)
    (hm : Moves s s' t .idle) (hlinks : s'.links = s.links.addTail (.req r) (.waiting c))
    (ho : Others s s' r) (hr : RefOk sema s r → RefOk sema s' r) (hended : s'.ended = s.ended)
    (hstale : s'.stale = s.stale) :
    Sound sema s' { v with
      place := Function.update v.place r (.waiting c), waiting := Function.update v.waiting c (v.waiting c ++ [r]) } := by
  have hb := h.books
  have hh : (s.call t).holds = some r := by rw [ht]; rfl
  have hplace := (hb.held r t).2 hh
  obtain ⟨hopen, hatt⟩ := h.points.uses t c (by rw [ht]; rfl)
  have hoff := h.off_held hh (by rw [ht]; simp) (by rw [ht]; rfl)
  have hclosed : ∀ c', s.opened c' = false → c' ≠ c := fun c' ho heq => by rw [heq, hopen] at ho; cases ho
  have hloose : ∀ r', Loose s v r' → Loose s' { v with
      place := Function.update v.place r (.waiting c), waiting := Function.update v.waiting c (v.waiting c ++ [r]) }
        r' := by
    intro r' hl
    have hne : r' ≠ r := by
      rintro rfl
      rcases hb.loose_place hl with hf | ⟨w, hw, hcall⟩
      · rw [hplace] at hf; cases hf
      · rw [hplace] at hw
        cases hw
        rw [ht] at hcall
        cases hcall
    exact loose_keep hm (by rw [ht]; simp) (by simp [hne]) hl
  refine ⟨hp, (h.rings.addWaiting h.apart hoff hopen hlinks hm.opened (fun c n hc => cursor_keep hm rfl hc)).rePlace _,
    ⟨hb.pend_update (by rw [hplace]; simp) (by simp) (drained_congr hended), fun c' r' => ?_, fun c' => ?_,
      hb.held_drop hm hh rfl (by simp), hb.live_update ho (fun _ => hr (hb.live r (by rw [hplace]; simp))),
      hb.idle_update ho (fun p _ hc => by cases hc), fun p hd => ?_⟩,
    h.loops.other hm (by rw [ht]; rfl) rfl (fun c' ho => Function.update_of_ne (hclosed c' ho) _ _)
      (fun c' hc => ?_) h.points
      (fun _ _ r' _ hl => hloose r' hl),
    h.drain.same hm rfl (drained_congr hended) rfl (fun r' hr' => ?_), hstale ▸ h.fresh⟩
  · have hiff := hb.wait_iff c' r'
    simp only [Function.update_apply]
    by_cases hcc : c' = c
    · subst hcc
      by_cases heq : r' = r <;> simp [heq, hiff]
    · by_cases heq : r' = r
      · subst heq
        rw [if_neg hcc, if_pos rfl, hiff, hplace]
        simp [Ne.symm hcc]
      · simp [hcc, heq, hiff]
  · simp only [Function.update_apply]
    split
    · refine List.nodup_append.2 ⟨hb.wait_nodup c, by simp, fun a ha b hb' heq => ?_⟩
      rw [List.mem_singleton] at hb'
      exact hoff.2.1 c (hb' ▸ heq ▸ ha)
    · exact hb.wait_nodup c'
  · obtain ⟨h₁, h₂⟩ := hb.drained p ((drained_congr hended p).1 hd)
    exact ⟨hm.removing ▸ h₁, hloose _ h₂⟩
  · by_cases hcc : c' = c
    · rw [hcc]; exact hatt
    · exact h.loops.attached c' (by simpa [hcc] using hc)
  · have hne : r' ≠ r := fun heq => by rw [heq, hplace] at hr'; cases hr'
    simpa [hne] using hr'

theorem getRequestById_mem {c id : Nat} {xs : List Ref} {fuel : Nat} {n : Node}
    (hpath : n = .waiting c ∧ xs = [] ∨ ∃ r ys, xs = r :: ys ∧ n = .req r ∧
      Path s.links.next n (ys.map .req) (.waiting c))
    (h : s.getRequestById (.waiting c) id fuel n = some (some r)) : r ∈ xs := by
  induction fuel generalizing n xs with
  | zero => cases h
  | succ fuel ih =>
    simp only [State.getRequestById] at h
    rcases hpath with ⟨rfl, rfl⟩ | ⟨r', ys, rfl, rfl, hpath⟩
    · simp at h
    · rw [if_neg (by simp)] at h
      simp only at h
      split at h
      · simp only [Option.some.injEq] at h
        simp [h]
      · refine List.mem_cons_of_mem _ (ih ?_ h)
        cases ys with
        | nil => exact .inl ⟨hpath, rfl⟩
        | cons y ys => exact .inr ⟨y, ys, rfl, hpath.1, hpath.1 ▸ hpath.2⟩

theorem Sound.found (h : Sound sema s v) {c id fuel : Nat} (ho : s.opened c = true)
    (hf : s.getRequestById (.waiting c) id fuel (s.links.next (.waiting c)) = some (some r)) : r ∈ v.waiting c := by
  refine getRequestById_mem ?_ hf
  have hpath := (h.rings.wait c ho).next
  cases hw : v.waiting c with
  | nil => rw [hw] at hpath; exact .inl ⟨hpath, rfl⟩
  | cons r ys =>
    rw [hw] at hpath
    exact .inr ⟨r, ys, rfl, hpath.1, hpath.1 ▸ hpath.2⟩

/-- The writer takes a request from the list of its connection. -/
theorem Sound.replied (h : Sound sema s v) (hp : Points s') {c : Nat} {reply : Int} (ht : s.call t = .idle)
    (hopen : s.opened c = true) (hr : r ∈ v.waiting c) (hm : Moves s s' t (.replied c r reply))
    (hlinks : s'.links = s.links.del (.req r) .poison) (ho : Others s s' r) (hok : RefOk sema s r → RefOk sema s' r)
    (hended : s'.ended = s.ended) (hstale : s'.stale = s.stale) :
    Sound sema s' { v with
      place := Function.update v.place r (.held t), waiting := Function.update v.waiting c ((v.waiting c).erase r) } := by
  have hb := h.books
  have hplace := (hb.wait_iff c r).1 hr
  have hclosed : ∀ c', s.opened c' = false → c' ≠ c := fun c' ho heq => by rw [heq, hopen] at ho; cases ho
  have hloose : ∀ r', Loose s v r' → Loose s' { v with
      place := Function.update v.place r (.held t), waiting := Function.update v.waiting c ((v.waiting c).erase r) }
        r' := by
    intro r' hl
    have hne : r' ≠ r := fun heq => (hb.loose_not hl).2 c (heq ▸ hplace)
    exact loose_keep hm (by rw [ht]; simp) (by simp [hne]) hl
  refine ⟨hp, (h.rings.delWaiting h.apart hopen hr (hb.wait_nodup c) hlinks hm.opened
      (fun c n hc => cursor_keep hm rfl hc)).rePlace _,
    ⟨hb.pend_update (by rw [hplace]; simp) (by simp) (drained_congr hended), fun c' r' => ?_, fun c' => ?_,
      hb.held_grab hm (by rw [ht]; rfl) rfl (fun u => by rw [hplace]; simp),
      hb.live_update ho (fun _ => hok (hb.live r (by rw [hplace]; simp))),
      hb.idle_update ho (fun p _ hc => by cases hc), fun p hd => ?_⟩,
    h.loops.other hm (by rw [ht]; rfl) rfl (fun c' ho => Function.update_of_ne (hclosed c' ho) _ _)
      (fun c' hc => ?_) h.points
      (fun _ _ r' _ hl => hloose r' hl),
    h.drain.same hm rfl (drained_congr hended) rfl (fun r' hr' => ?_), hstale ▸ h.fresh⟩
  · have hiff := hb.wait_iff c' r'
    simp only [Function.update_apply]
    by_cases hcc : c' = c
    · subst hcc
      rw [if_pos rfl, (hb.wait_nodup c').mem_erase_iff, hiff]
      by_cases heq : r' = r <;> simp [heq]
    · by_cases heq : r' = r
      · subst heq
        rw [if_neg hcc, if_pos rfl, hiff, hplace]
        simp [Ne.symm hcc]
      · simp [hcc, heq, hiff]
  · simp only [Function.update_apply]
    split
    · exact (hb.wait_nodup c).erase r
    · exact hb.wait_nodup c'
  · obtain ⟨h₁, h₂⟩ := hb.drained p ((drained_congr hended p).1 hd)
    exact ⟨hm.removing ▸ h₁, hloose _ h₂⟩
  · by_cases hcc : c' = c
    · rw [hcc]
      exact h.loops.attached c (List.ne_nil_of_mem hr)
    · exact h.loops.attached c' (by simpa [hcc] using hc)
  · have hne : r' ≠ r := fun heq => by rw [heq, hplace] at hr'; cases hr'
    simpa [hne] using hr'

/-! ## Completion -/

/-- The request has been ended, properly. -/
structure Ends (s s' : State) (r : Ref) (e : Ended) : Prop where
  links : s'.links = s.links
  others : Others s s' r
  busy : ∀ p, r = .slot p → s'.busy p = false
  stale : s'.stale = s.stale
  wild : s'.wild = s.wild
  ended : s'.ended = s.ended ++ [e]
  ref : e.ref = r
  serial : e.serial = (s.req r).serial

theorem onRequestEnd_slot {p : Nat} (h : (s.req (.slot p)).onEnd = .blk) (who : EndedBy) (field : Field) (result : Int) :
    s.onRequestEnd (.slot p) who field result = { s with
      ended := s.ended ++ [⟨.slot p, (s.req (.slot p)).serial, who, field, result, (s.req (.slot p)).union⟩]
      busy := Function.update s.busy p false } := by
  unfold State.onRequestEnd
  dsimp only
  rw [h]

theorem onRequestEnd_zones {k : Nat} (h : (s.req (.zones k)).onEnd = .zones) (who : EndedBy) (field : Field)
    (result : Int) :
    s.onRequestEnd (.zones k) who field result = { s with
      ended := s.ended ++ [⟨.zones k, (s.req (.zones k)).serial, who, field, result, (s.req (.zones k)).union⟩]
      sem := Function.update s.sem k (s.sem k + 1)
      stale := s.stale || !s.alive k } := by
  unfold State.onRequestEnd
  dsimp only
  rw [h]

/-- `on_request_end` on a request with another content of its union. -/
theorem onRequestEnd_ends (hr : RefOk sema s r) (u : Union) (who : EndedBy) (field : Field) (result : Int) :
    Ends s ((s.setReq r { s.req r with union := u }).onRequestEnd r who field result) r
      ⟨r, (s.req r).serial, who, field, result, u⟩ := by
  have hne : ∀ r', r' ≠ r → Function.update s.req r { s.req r with union := u } r' = s.req r' :=
    fun r' h => Function.update_of_ne h _ _
  have hself : (s.setReq r { s.req r with union := u }).req r = { s.req r with union := u } := Function.update_self ..
  cases r with
  | slot p =>
    obtain ⟨-, hend, -⟩ := hr
    rw [onRequestEnd_slot (by rw [hself]; exact hend), hself]
    refine ⟨rfl, ⟨hne, fun p' hp => ?_, fun _ _ => rfl, fun _ _ => rfl, Nat.le_refl _⟩, fun p' hp => ?_, rfl,
      rfl, rfl, rfl, rfl⟩
    · exact Function.update_of_ne (fun heq : p' = p => hp (by rw [heq])) _ _
    · cases hp
      exact Function.update_self ..
  | zones k =>
    obtain ⟨halive, -, -, hend, -⟩ := hr
    rw [onRequestEnd_zones (by rw [hself]; exact hend), hself]
    refine ⟨rfl, ⟨hne, fun _ _ => rfl, fun _ _ => rfl, fun k' hk => ?_, Nat.le_refl _⟩,
      fun p hp => (by cases hp), ?_, rfl, rfl, rfl, rfl⟩
    · exact Function.update_of_ne (fun heq : k' = k => hk (by rw [heq])) _ _
    · simp [State.setReq, halive]

theorem Ends.setCall {e : Ended} (h : Ends s s' r e) (t : Tid) (x : Point) : Ends s (s'.setCall t x) r e :=
  ⟨h.links, ⟨h.others.req, h.others.busy, h.others.alive, h.others.sem, h.others.zonesCalls⟩, h.busy, h.stale,
    h.wild, h.ended, h.ref, h.serial⟩

theorem Sound.ended (h : Sound sema s v) (hp : Points s') {x : Point} {e : Ended} (he : Ends s s' r e)
    (hwho : e.who ≠ .drain) (hm : Moves s s' t x) (hh : (s.call t).holds = some r) (hq : s.call t ≠ .queueing r)
    (hx : x.holds = none) (hl : x.loops = (s.call t).loops) (hrm : x.removes = false)
    (hnode : ∀ c n, x = .relNext c n ∨ x = .relAt c n → n = .req r ∧ s.call t = .relAt c n) :
    Sound sema s' { v with place := Function.update v.place r .free } := by
  have hb := h.books
  have hplace := (hb.held r t).2 hh
  have hd := drained_snoc he.ended hwho
  have hloose : ∀ r', Loose s v r' → Loose s' { v with place := Function.update v.place r .free } r' := by
    rintro r' (hf | ⟨u, hu⟩)
    · exact .inl (by by_cases heq : r' = r <;> simp [heq, hf])
    · refine .inr ⟨u, ?_⟩
      have hne : u ≠ t := by
        rintro rfl
        rw [hu] at hh
        cases hh
        exact hq hu
      rw [hm.at, if_neg hne]
      exact hu
  have hcursor : ∀ c n, s'.Cursor c n → s.Cursor c n := by
    rintro c n ⟨u, hu⟩
    rw [hm.at] at hu
    split at hu
    · obtain ⟨rfl, hcall⟩ := hnode c n (hu.imp id And.left)
      exact ⟨t, .inr ⟨hcall, by simp⟩⟩
    · exact ⟨u, hu⟩
  refine ⟨hp, (h.rings.keep he.links hm.opened hcursor).rePlace _,
    ⟨hb.pend_update (by rw [hplace]; simp) (by simp) hd, hb.wait_update (by rw [hplace]; simp) (by simp), hb.wait_nodup,
      hb.held_drop hm hh hx (by simp), hb.live_update he.others (fun hc => absurd rfl hc),
      hb.idle_update he.others (fun p hp _ => he.busy p hp), fun p hdr => ?_⟩,
    h.loops.moved hm hl (fun c _ hw => hw) h.loops.attached h.points (fun _ _ r' _ hl => hloose r' hl) (fun c n hc => ?_)
      (fun c r' hc => ?_) (fun c hc => ?_),
    h.drain.same hm hrm hd rfl (fun r' hr' => ?_), he.stale ▸ h.fresh⟩
  · obtain ⟨h₁, h₂⟩ := hb.drained p ((hd p).1 hdr)
    exact ⟨hm.removing ▸ h₁, hloose _ h₂⟩
  · obtain ⟨-, hcall⟩ := hnode c n hc
    exact h.loops.node t c n (.inr hcall)
  · obtain ⟨hn, -⟩ := hnode c _ (.inl hc)
    cases hn
    exact .inl (by simp)
  · obtain ⟨hn, -⟩ := hnode c _ (.inr hc)
    cases hn
  · have hne : r' ≠ r := fun heq => by rw [heq, hplace] at hr'; cases hr'
    simpa [hne] using hr'

/-! ## `bius_dev_release` -/

theorem Sound.release (h : Sound sema s v) {c : Nat} (hp : Points (State.setCall { s with
      opened := Function.update s.opened c false } t (.relNext c (.waiting c)))) (ht : s.call t = .idle)
    (hopen : s.opened c = true) :
    Sound sema (State.setCall { s with opened := Function.update s.opened c false } t (.relNext c (.waiting c))) v := by
  have hb := h.books
  have hat : ∀ u, (State.setCall { s with opened := Function.update s.opened c false } t
      (.relNext c (.waiting c))).call u =
      if u = t then .relNext c (.waiting c) else s.call u := fun u => by simp [State.setCall, Function.update_apply]
  have hop : ∀ c', Function.update s.opened c false c' = true → c' ≠ c ∧ s.opened c' = true := by
    intro c' hc
    rw [Function.update_apply] at hc
    split at hc
    · cases hc
    · next hne => exact ⟨hne, hc⟩
  have hloose : ∀ r, Loose s v r → Loose (State.setCall { s with
      opened := Function.update s.opened c false } t (.relNext c (.waiting c))) v r := by
    rintro r (hf | ⟨u, hu⟩)
    · exact .inl hf
    · exact .inr ⟨u, by rw [hat, if_neg (fun heq => by rw [heq, ht] at hu; cases hu)]; exact hu⟩
  have hother : ∀ u x, (State.setCall { s with opened := Function.update s.opened c false } t
      (.relNext c (.waiting c))).call u = x → x.removes = true → s.call u = x := by
    intro u x hu hx
    rw [hat] at hu
    split at hu
    · rw [← hu] at hx; cases hx
    · exact hu
  refine ⟨hp, ⟨h.rings.pend, fun c' ho => h.rings.wait c' (hop c' ho).2, ?_⟩,
    ⟨hb.pend_iff, hb.wait_iff, hb.wait_nodup, fun r u => ?_, fun r hr => refOk_of_eq rfl rfl rfl rfl rfl
      (hb.live r hr), hb.idle, fun p hd => ⟨(hb.drained p hd).1, hloose _ (hb.drained p hd).2⟩⟩,
    ⟨h.loops.attached, fun c' ho hno => ?_, fun u c' n hu => ?_, fun u c' r hu => ?_, fun u c' hu => ?_⟩,
    ⟨fun u hu => h.drain.start u (hother u _ hu rfl), fun u n hu => h.drain.next u n (hother u _ hu rfl),
      fun u n hu => h.drain.at_ u n (hother u _ hu rfl)⟩, h.fresh⟩
  · rintro c' n ⟨u, hu⟩
    rw [hat] at hu
    split at hu
    · rcases hu with hu | ⟨hu, -⟩
      · cases hu
        exact (h.rings.wait c hopen).next
      · cases hu
    · exact h.rings.path c' n ⟨u, hu⟩
  · rw [hb.held, hat]
    split
    · next heq => rw [heq, ht]; simp [Point.holds]
    · rfl
  · by_cases hcc : c' = c
    · exact absurd (by rw [hat, if_pos rfl, hcc]; rfl) (hno t)
    · refine h.loops.emptied c' (by simpa [State.setCall, hcc] using ho) (fun u hu => hno u ?_)
      rw [hat, if_neg (fun heq => by rw [heq, ht] at hu; cases hu)]
      exact hu
  · rw [hat] at hu
    split at hu
    · rcases hu with hu | hu
      · cases hu; exact .inl rfl
      · cases hu
    · exact h.loops.node u c' n hu
  · rw [hat] at hu
    split at hu
    · cases hu
    · exact hloose r (h.loops.stand u c' r hu)
  · rw [hat] at hu
    split at hu
    · cases hu
    · exact h.loops.atEnd u c' hu

theorem Sound.relLast (h : Sound sema s v) {c : Nat} {n : Node} (hp : Points (s.setCall t (.relAt c (.waiting c))))
    (ht : s.call t = .relNext c n) (hw : v.waiting c = []) : Sound sema (s.setCall t (.relAt c (.waiting c))) v := by
  have hb := h.books
  have hm := setCall_moves s t (.relAt c (.waiting c))
  have hloose : ∀ r, Loose s v r → Loose (s.setCall t (.relAt c (.waiting c))) v r := fun r hl =>
    loose_keep hm (by rw [ht]; simp) rfl hl
  have hcursor : ∀ c' n', (s.setCall t (.relAt c (.waiting c))).Cursor c' n' → s.Cursor c' n' := by
    rintro c' n' ⟨u, hu⟩
    rw [hm.at] at hu
    split at hu
    · rcases hu with hu | ⟨hu, hne⟩
      · cases hu
      · cases hu; exact absurd rfl hne
    · exact ⟨u, hu⟩
  refine ⟨hp, h.rings.keep rfl rfl hcursor,
    ⟨hb.pend_iff, hb.wait_iff, hb.wait_nodup, hb.held_keep hm (by rw [ht]; rfl),
      fun r hr => refOk_of_eq rfl rfl rfl rfl rfl (hb.live r hr), hb.idle,
      fun p hd => ⟨(hb.drained p hd).1, hloose _ (hb.drained p hd).2⟩⟩,
    h.loops.moved hm (by rw [ht]; rfl) (fun _ _ hw => hw) h.loops.attached h.points (fun _ _ r _ hl => hloose r hl)
      (fun c' n' hc => ?_) (fun c' r hc => by cases hc) (fun c' hc => ?_),
    h.drain.same hm rfl (drained_congr rfl) rfl (fun _ hr => hr), h.fresh⟩
  · rcases hc with hc | hc
    · cases hc
    · cases hc; exact .inl rfl
  · cases hc; exact hw

theorem Sound.relStep (h : Sound sema s v) {c : Nat} {n : Node} {rest : List Ref}
    (hp : Points (s.setCall t (.relAt c (.req r)))) (ht : s.call t = .relNext c n) (hw : v.waiting c = r :: rest) :
    Sound sema (s.setCall t (.relAt c (.req r)))
      { v with place := Function.update v.place r (.held t), waiting := Function.update v.waiting c rest } := by
  have hb := h.books
  have hm := setCall_moves s t (.relAt c (.req r))
  have hplace : v.place r = .waiting c := (hb.wait_iff c r).1 (by rw [hw]; simp)
  have hnd := hb.wait_nodup c
  rw [hw, List.nodup_cons] at hnd
  have hclosed : s.opened c = false := h.points.closes t c (by rw [ht]; rfl)
  have hpath := h.rings.path c n ⟨t, .inl ht⟩
  rw [hw] at hpath
  have hloose : ∀ r', Loose s v r' → Loose (s.setCall t (.relAt c (.req r)))
      { v with place := Function.update v.place r (.held t), waiting := Function.update v.waiting c rest } r' := by
    intro r' hl
    have hne : r' ≠ r := fun heq => (hb.loose_not hl).2 c (heq ▸ hplace)
    exact loose_keep hm (by rw [ht]; simp) (by simp [hne]) hl
  have hopen : ∀ c', s.opened c' = true → c' ≠ c := fun c' ho heq => by rw [heq, hclosed] at ho; cases ho
  refine ⟨hp, ⟨h.rings.pend, fun c' ho => ?_, ?_⟩,
    ⟨hb.pend_update (by rw [hplace]; simp) (by simp) (drained_congr rfl), fun c' r' => ?_, fun c' => ?_,
      hb.held_grab hm (by rw [ht]; rfl) rfl (fun u => by rw [hplace]; simp),
      hb.live_update (.of_eq rfl rfl rfl rfl rfl)
        (fun _ => refOk_of_eq rfl rfl rfl rfl rfl (hb.live r (by rw [hplace]; simp))),
      hb.idle_update (.of_eq rfl rfl rfl rfl rfl) (fun p _ hc => by cases hc),
      fun p hd => ⟨(hb.drained p hd).1, hloose _ (hb.drained p hd).2⟩⟩,
    h.loops.moved hm (by rw [ht]; rfl) (fun c' _ hw' => ?_) (fun c' hc => ?_) h.points (fun _ _ r' _ hl => hloose r' hl)
      (fun c' n' hc => ?_) (fun c' r' hc => by cases hc) (fun c' hc => by cases hc),
    h.drain.same hm rfl (drained_congr rfl) rfl (fun r' hr' => ?_), h.fresh⟩
  · simp only [Function.update_of_ne (hopen c' ho)]
    exact h.rings.wait c' ho
  · rintro c' n' ⟨u, hu⟩
    rw [hm.at] at hu
    split at hu
    · rcases hu with hu | ⟨hu, -⟩
      · cases hu
      · cases hu
        simp only [Function.update_self]
        exact hpath.1 ▸ hpath.2
    · next hne =>
      have hcc : c' ≠ c := fun heq => hne (h.points.closes_inj u t c
        (by rw [← heq]; rcases hu with hu | ⟨hu, -⟩ <;> rw [hu] <;> rfl) (by rw [ht]; rfl))
      simp only [Function.update_of_ne hcc]
      exact h.rings.path c' n' ⟨u, hu⟩
  · have hiff := hb.wait_iff c' r'
    simp only [Function.update_apply]
    by_cases hcc : c' = c
    · subst hcc
      rw [if_pos rfl]
      rw [hw, List.mem_cons] at hiff
      by_cases heq : r' = r
      · subst heq
        simp [hnd.1]
      · simpa [heq] using hiff
    · by_cases heq : r' = r
      · subst heq
        rw [if_neg hcc, if_pos rfl, hiff, hplace]
        simp [Ne.symm hcc]
      · simp [hcc, heq, hiff]
  · simp only [Function.update_apply]
    split
    · exact hnd.2
    · exact hb.wait_nodup c'
  · simp only [Function.update_apply]
    split
    · next hcc => rw [hcc, hw] at hw'; cases hw'
    · exact hw'
  · simp only [Function.update_apply] at hc
    split at hc
    · next hcc => rw [hcc]; exact h.loops.attached c (by rw [hw]; simp)
    · exact h.loops.attached c' hc
  · rcases hc with hc | hc
    · cases hc
    · cases hc; exact .inr ⟨r, rfl, h.loops.attached c (by rw [hw]; simp)⟩
  · have hne : r' ≠ r := fun heq => by rw [heq, hplace] at hr'; cases hr'
    simpa [hne] using hr'

theorem Sound.relNext_cases (h : Sound sema s v) {c : Nat} {n : Node} (ht : s.call t = .relNext c n) :
    s.links.next n = .waiting c ∧ v.waiting c = [] ∨ ∃ r rest, s.links.next n = .req r ∧
      v.waiting c = r :: rest := by
  have hpath := h.rings.path c n ⟨t, .inl ht⟩
  cases hw : v.waiting c with
  | nil => rw [hw] at hpath; exact .inl ⟨hpath, rfl⟩
  | cons r rest => rw [hw] at hpath; exact .inr ⟨r, rest, hpath.1, rfl⟩

theorem Sound.relOver (h : Sound sema s v) {c : Nat} (hp : Points (s.setCall t (.relUnref c)))
    (ht : s.call t = .relAt c (.waiting c)) : Sound sema (s.setCall t (.relUnref c)) v := by
  have hb := h.books
  have hm := setCall_moves s t (.relUnref c)
  have hloose : ∀ r, Loose s v r → Loose (s.setCall t (.relUnref c)) v r := fun r hl =>
    loose_keep hm (by rw [ht]; simp) rfl hl
  have hat : ∀ u x, (s.setCall t (.relUnref c)).call u = x → x.loops ≠ none → s.call u = x := by
    intro u x hu hx
    rw [hm.at] at hu
    split at hu
    · rw [← hu] at hx; exact absurd rfl hx
    · exact hu
  refine ⟨hp, h.rings.keep rfl rfl (fun _ _ hc => cursor_keep hm rfl hc),
    ⟨hb.pend_iff, hb.wait_iff, hb.wait_nodup, hb.held_keep hm (by rw [ht]; rfl),
      fun r hr => refOk_of_eq rfl rfl rfl rfl rfl (hb.live r hr), hb.idle,
      fun p hd => ⟨(hb.drained p hd).1, hloose _ (hb.drained p hd).2⟩⟩,
    ⟨h.loops.attached, fun c' ho hno => ?_, fun u c' n hu => ?_, fun u c' r hu => ?_, fun u c' hu => ?_⟩,
    h.drain.same hm rfl (drained_congr rfl) rfl (fun _ hr => hr), h.fresh⟩
  · by_cases hcc : c' = c
    · rw [hcc]; exact h.loops.atEnd t c ht
    · refine h.loops.emptied c' ho (fun u hu => hno u ?_)
      have hne : u ≠ t := by
        rintro rfl
        rw [ht] at hu
        cases hu
        exact hcc rfl
      rw [hm.at, if_neg hne]
      exact hu
  · refine h.loops.node u c' n (hu.imp (fun hu => hat u _ hu ?_) (fun hu => hat u _ hu ?_)) <;>
      exact Option.some_ne_none c'
  · exact hloose r (h.loops.stand u c' r (hat u _ hu (Option.some_ne_none c')))
  · exact h.loops.atEnd u c' (hat u _ hu (Option.some_ne_none c'))

theorem Sound.relUnref (h : Sound sema s v) {c : Nat} (hp : Points (s.relUnref t c)) (ht : s.call t = .relUnref c) :
    Sound sema (s.relUnref t c) v := by
  have hb := h.books
  by_cases hatt : s.attached c = true
  · -- the thread goes on to `x`, and `c` is no longer attached
    have hrest : ∀ (x : Point) (removing : Bool), x.holds = none → x.loops = none →
        (s.removing = true → removing = true) →
        (∀ n, x ≠ .remNext n) → (∀ n, x ≠ .remAt n) → (x = .remUnlink → s.removing = false) →
        Points (State.setCall { s with
          attached := Function.update s.attached c false, numConnection := s.numConnection - 1, removing } t x) →
        Sound sema (State.setCall { s with
          attached := Function.update s.attached c false, numConnection := s.numConnection - 1, removing } t x) v := by
      intro x removing hxh hxl hrem hx₁ hx₂ hx₃ hp
      have hat : ∀ u, (State.setCall { s with
          attached := Function.update s.attached c false, numConnection := s.numConnection - 1, removing } t x).call u =
          if u = t then x else s.call u := fun u => by simp [State.setCall, Function.update_apply]
      have hother : ∀ u y, (State.setCall { s with
          attached := Function.update s.attached c false, numConnection := s.numConnection - 1, removing } t x).call
            u = y →
          y ≠ x → s.call u = y := by
        intro u y hu hy
        rw [hat] at hu
        split at hu
        · exact absurd hu.symm hy
        · exact hu
      have hloop : ∀ {y : Point} {c' : Nat}, y.loops = some c' → y ≠ x :=
          fun hy heq => by rw [heq, hxl] at hy; cases hy
      have hloose : ∀ r, Loose s v r → Loose (State.setCall { s with
          attached := Function.update s.attached c false, numConnection := s.numConnection - 1, removing } t x) v r := by
        rintro r (hf | ⟨u, hu⟩)
        · exact .inl hf
        · exact .inr ⟨u, by rw [hat, if_neg (fun heq => by rw [heq, ht] at hu; cases hu)]; exact hu⟩
      have hclosed := h.points.closes t c (by rw [ht]; rfl)
      have hmine : ∀ u c', (s.call u).loops = some c' → c' ≠ c := by
        rintro u c' hu rfl
        have := h.points.closes_inj u t c' (Point.closes_of_loops hu) (by rw [ht]; rfl)
        rw [this, ht] at hu
        cases hu
      have hempty : v.waiting c = [] := h.loops.emptied c hclosed (fun u hu => hmine u c hu rfl)
      refine ⟨hp, ⟨h.rings.pend, h.rings.wait, ?_⟩,
        ⟨hb.pend_iff, hb.wait_iff, hb.wait_nodup, fun r u => ?_, fun r hr => refOk_of_eq rfl rfl rfl rfl rfl
          (hb.live r hr), hb.idle, fun p hd => ⟨hrem (hb.drained p hd).1, hloose _ (hb.drained p hd).2⟩⟩,
        ⟨fun c' hc => ?_, fun c' ho hno => h.loops.emptied c' ho (fun u hu => hno u ?_), fun u c' n hu => ?_,
          fun u c' r hu => ?_, fun u c' hu => ?_⟩,
        ⟨fun u hu p hd => ?_, fun u n hu => h.drain.next u n (hother u _ hu (hx₁ n).symm),
          fun u n hu => h.drain.at_ u n (hother u _ hu (hx₂ n).symm)⟩, h.fresh⟩
      · rintro c' n ⟨u, hu⟩
        refine h.rings.path c' n ⟨u, hu.imp (fun hu => hother u _ hu (hloop rfl))
          (fun hu => ⟨hother u _ hu.1 (hloop rfl), hu.2⟩)⟩
      · rw [hb.held, hat]
        split
        · next heq => rw [heq, ht, hxh]; rfl
        · rfl
      · have hne : c' ≠ c := fun heq => hc (heq ▸ hempty)
        simp only [State.setCall, Function.update_of_ne hne]
        exact h.loops.attached c' hc
      · rw [hat, if_neg (fun heq => by rw [heq, ht] at hu; cases hu)]
        exact hu
      · have hu' : s.call u = .relNext c' n ∨ s.call u = .relAt c' n :=
          hu.imp (fun hu => hother u _ hu (hloop rfl)) (fun hu => hother u _ hu (hloop rfl))
        have hne := hmine u c' (by rcases hu' with hu' | hu' <;> rw [hu'] <;> rfl)
        simp only [State.setCall, Function.update_of_ne hne]
        exact h.loops.node u c' n hu'
      · exact hloose r (h.loops.stand u c' r (hother u _ hu (hloop rfl)))
      · exact h.loops.atEnd u c' (hother u _ hu (hloop rfl))
      · by_cases hxu : x = .remUnlink
        · have := (hb.drained p hd).1
          rw [hx₃ hxu] at this
          cases this
        · exact h.drain.start u (hother u _ hu (Ne.symm hxu)) p hd
    have hnot : s.removing = false := by
      cases hr : s.removing with
      | false => rfl
      | true => rw [h.points.removing hr c] at hatt; cases hatt
    unfold State.relUnref at hp ⊢
    rw [if_pos hatt] at hp ⊢
    dsimp only at hp ⊢
    split
    · next hzero =>
      rw [if_pos hzero] at hp
      exact hrest .remUnlink true rfl rfl (fun _ => rfl) (fun n => by simp) (fun n => by simp) (fun _ => hnot) hp
    · next hpos =>
      rw [if_neg hpos] at hp
      exact hrest .idle s.removing rfl rfl id (fun n => by simp) (fun n => by simp) (fun hc => by cases hc) hp
  · have heq : s.relUnref t c = s.setCall t .idle := by
      unfold State.relUnref
      rw [if_neg hatt]
    rw [heq] at hp ⊢
    exact h.setCall hp (by rw [ht]; rfl) rfl (h.drain.same (setCall_moves s t _) rfl (drained_congr rfl) rfl
      (fun _ hr => hr))
      (by rw [ht]; rfl) (by rw [ht]; simp)

end Bius.Teardown
