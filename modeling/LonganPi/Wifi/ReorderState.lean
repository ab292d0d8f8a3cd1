import LonganPi.Lib.Transition
import LonganPi.Wifi.ReorderOrder

/-!
# The reorder lists of all stations, in every state

`forall_ctrl_step` says what a step can do to a `reord_ctrl`, so a property of
one is shown to hold of all by looking at the four functions that change one.

* `reordLists_windowed`: in every state of every run the frames that wait are
  sorted, differ in their numbers, and are less than a window behind the next
  one to pass on.
* `reordLists_armed`: as long as no timer expires while the bus is down, a list
  with frames has its timer or its work pending.
-/

namespace LonganPi.Wifi

open ReorderBuffer

/-! ## What a step does to a traffic class -/

/-- All traffic classes of all stations. -/
def AllCtrl (P : ReordCtrl → Prop) (rx : AicwfRxPriv) : Prop :=
  ∀ info ∈ rx.stasReordList, ∀ tid, P (info.preorderCtrl tid)

/-- What the functions that change a `reord_ctrl` keep.  `expired` is what is
known of the bus when a timer expires. -/
structure KeptByAll (P : ReordCtrl → Prop) (expired : Bool → Prop) : Prop where
  fresh : P .fresh
  frame : ∀ c q f, f.seqNum.toNat < 4096 → P c → P (reordFrame c.reenable q f).1
  flush : ∀ c q, P c → P (reordFlush c q).1
  handler : ∀ c busUp, expired busUp → P c → P (reordTimeoutHandler busUp c)
  worker : ∀ c q, P c → P (reordTimeoutWorker c q).1

theorem findSta_eq {mac : MacAddr} {stas stas₁ stas₂ : List ReordCtrlInfo}
    {info : ReordCtrlInfo} (h : findSta mac stas = some (stas₁, info, stas₂)) :
    stas = stas₁ ++ info :: stas₂ := by
  induction stas generalizing stas₁ with
  | nil => cases h
  | cons i stas ih =>
    unfold findSta at h
    split_ifs at h with hmac
    · cases h
      rfl
    · obtain ⟨⟨s₁, i', s₂⟩, hr, heq⟩ := Option.map_eq_some_iff.mp h
      cases heq
      rw [ih hr]
      rfl

theorem ReordCtrlInfo.set_preorderCtrl {P : ReordCtrl → Prop} {info : ReordCtrlInfo}
    {tid : Fin 8} {c : ReordCtrl} (hinfo : ∀ t, P (info.preorderCtrl t)) (hc : P c) (t : Fin 8) :
    P ((info.set tid c).preorderCtrl t) := by
  show P (Function.update info.preorderCtrl tid c t)
  by_cases ht : t = tid
  · rw [ht, Function.update_self]
    exact hc
  · rw [Function.update_of_ne ht]
    exact hinfo t

section Lookup

variable {P : ReordCtrl → Prop} {rx : AicwfRxPriv} {mac : MacAddr}
  {stas₁ stas₂ : List ReordCtrlInfo} {info : ReordCtrlInfo}

theorem AllCtrl.found (h : AllCtrl P rx)
    (hfind : findSta mac rx.stasReordList = some (stas₁, info, stas₂)) (tid : Fin 8) :
    P (info.preorderCtrl tid) := by
  apply h
  rw [findSta_eq hfind]
  exact List.mem_append_right _ List.mem_cons_self

/-- One traffic class of a station that was found is changed. -/
theorem AllCtrl.set (h : AllCtrl P rx)
    (hfind : findSta mac rx.stasReordList = some (stas₁, info, stas₂)) {tid : Fin 8}
    {c : ReordCtrl} (hc : P c) (busUp : Bool) (q : RxQueues) :
    AllCtrl P ⟨busUp, stas₁ ++ info.set tid c :: stas₂, q⟩ := by
  intro i hi t
  rcases List.mem_append.mp hi with h₁ | h₂
  · apply h
    rw [findSta_eq hfind]
    exact List.mem_append_left _ h₁
  · rcases List.mem_cons.mp h₂ with rfl | h₂
    · exact ReordCtrlInfo.set_preorderCtrl (fun t => h.found hfind t) hc t
    · apply h
      rw [findSta_eq hfind]
      exact List.mem_append_right _ (List.mem_cons_of_mem _ h₂)

end Lookup

/-- The cases of `reord_process_unit`: the frame is refused, or its traffic class
takes it. -/
theorem reordProcessUnit_allCtrl {P : ReordCtrl → Prop} {expired : Bool → Prop}
    (hP : KeptByAll P expired) {alloc : Bool} {iftype : Iftype} {rx rx' : AicwfRxPriv}
    {skb : Skb} {seqNum : BitVec 16} {tid : Nat} {forward : Bool} {ret : Int}
    (hseq : seqNum.toNat < 4096) (h : AllCtrl P rx)
    (hstep : reordProcessUnit alloc iftype rx skb seqNum tid forward = some (rx', ret)) :
    AllCtrl P rx' := by
  unfold reordProcessUnit at hstep
  by_cases hlen : skb.len ≤ 14
  · rw [if_pos hlen] at hstep
    cases hstep
    exact h
  rw [if_neg hlen] at hstep
  cases hfree : rx.queues.rxframesFreequeue with
  | nil =>
    rw [hfree] at hstep
    cases hstep
    exact h
  | cons slot freequeue =>
    rw [hfree] at hstep
    cases hmac : iftype.mac skb with
    | none =>
      rw [hmac] at hstep
      cases hstep
      exact h
    | some mac =>
      rw [hmac] at hstep
      cases hfind : findSta mac rx.stasReordList with
      | some r =>
        obtain ⟨stas₁, info, stas₂⟩ := r
        simp only [hfind] at hstep
        split_ifs at hstep with htid
        cases hstep
        exact h.set hfind (hP.frame _ _ _ hseq (h.found hfind _)) _ _
      | none =>
        simp only [hfind] at hstep
        cases hinit : reordInitSta alloc rx.busUp mac with
        | none =>
          simp only [hinit] at hstep
          cases hstep
          exact h
        | some info =>
          simp only [hinit] at hstep
          split_ifs at hstep with htid
          cases hstep
          have hall : ∀ t, info.preorderCtrl t = .fresh := by
            unfold reordInitSta at hinit
            split_ifs at hinit
            cases hinit
            exact fun t => rfl
          intro i hi t
          rcases List.mem_append.mp hi with hold | hnew
          · exact h i hold t
          · rw [List.mem_singleton.mp hnew]
            refine ReordCtrlInfo.set_preorderCtrl (fun t => ?_) ?_ t
            · rw [hall t]
              exact hP.fresh
            · rw [hall]
              exact hP.frame .fresh _ _ hseq hP.fresh

/-- A property that the functions keep is kept by every step. -/
theorem forall_ctrl_step {P : ReordCtrl → Prop} {expired : Bool → Prop}
    (hP : KeptByAll P expired) {rx rx' : AicwfRxPriv} {e : RxEvent} (h : AllCtrl P rx)
    (hexp : ∀ mac tid, e = .expire mac tid → expired rx.busUp)
    (hstep : rxStep rx e = some rx') : AllCtrl P rx' := by
  cases e with
  | unit alloc iftype skb seqNum tid forward =>
    obtain ⟨⟨rx₁, ret⟩, hunit, rfl⟩ := Option.map_eq_some_iff.mp hstep
    refine reordProcessUnit_allCtrl hP ?_ h hunit
    have hlt := seqNum.isLt
    rw [BitVec.toNat_setWidth]
    omega
  | flush iftype skb tid =>
    obtain ⟨⟨rx₁, ret⟩, hflush, rfl⟩ := Option.map_eq_some_iff.mp hstep
    unfold reordFlushTid at hflush
    cases hmac : iftype.mac skb with
    | none =>
      rw [hmac] at hflush
      cases hflush
      exact h
    | some mac =>
      rw [hmac] at hflush
      cases hfind : findSta mac rx.stasReordList with
      | none =>
        simp only [hfind] at hflush
        cases hflush
        exact h
      | some r =>
        obtain ⟨stas₁, info, stas₂⟩ := r
        simp only [hfind] at hflush
        split_ifs at hflush with htid
        cases hflush
        exact h.set hfind (hP.flush _ _ (h.found hfind _)) _ _
  | expire mac tid =>
    unfold rxStep at hstep
    cases hfind : findSta mac rx.stasReordList with
    | none =>
      simp only [hfind] at hstep
      cases hstep
    | some r =>
      obtain ⟨stas₁, info, stas₂⟩ := r
      simp only [hfind] at hstep
      split_ifs at hstep with htimer
      cases hstep
      exact h.set hfind (hP.handler _ _ (hexp mac tid rfl) (h.found hfind _)) _ _
  | work mac tid =>
    unfold rxStep at hstep
    cases hfind : findSta mac rx.stasReordList with
    | none =>
      simp only [hfind] at hstep
      cases hstep
    | some r =>
      obtain ⟨stas₁, info, stas₂⟩ := r
      simp only [hfind] at hstep
      split_ifs at hstep with hwork
      cases hstep
      exact h.set hfind (hP.worker _ _ (h.found hfind _)) _ _
  | deinit mac =>
    obtain rfl := Option.some.inj hstep
    unfold reordDeinitSta
    cases hfind : findSta mac rx.stasReordList with
    | none => exact h
    | some r =>
      obtain ⟨stas₁, info, stas₂⟩ := r
      intro i hi t
      apply h
      rw [findSta_eq hfind]
      rcases List.mem_append.mp hi with h₁ | h₂
      · exact List.mem_append_left _ h₁
      · exact List.mem_append_right _ (List.mem_cons_of_mem _ h₂)
  | bus up =>
    obtain rfl := Option.some.inj hstep
    exact h

/-! ## The window -/

/-- How far a frame is ahead of the next one to pass on. -/
def ReordCtrl.ahead (c : ReordCtrl) (f : RecvMsdu) : Nat :=
  (f.seqNum.toNat + 4096 - c.indSn.toNat) % 4096

/-- The frames that wait are sorted and inside of the window. -/
structure Windowed (c : ReordCtrl) : Prop where
  disabled : c.enable = false → c.reordList = []
  sorted : c.reordList.Pairwise fun f g => c.ahead f < c.ahead g
  window : ∀ f ∈ c.reordList, 0 < c.ahead f ∧ c.ahead f < 64
  length : c.reordList.length < 64

/-- Some whole numbers stand for the sequence numbers of `c`.  There is room for
half of the circle below them. -/
def Lifted (c : ReordCtrl) : Prop :=
  ∃ b q, Tracks q.indicated b c q ∧ Ok 64 b ∧ ∀ h, b.head = some h → 2048 ≤ h

/-- The invariant of a traffic class. -/
def Represented (c : ReordCtrl) : Prop :=
  c.enable = false ∧ c.reordList = [] ∨ Lifted c

/-- Only what was passed on so far depends on the queues. -/
theorem Tracks.reset {out : List Skb} {b : Buffer RecvMsdu} {c : ReordCtrl} {q : RxQueues}
    (ht : Tracks out b c q) (q' : RxQueues) :
    Tracks q'.indicated { b with delivered := [] } c q' :=
  ⟨ht.enable, ht.wsize, ht.fresh, ht.head, ht.pending, ht.numbered,
    (List.append_nil _).symm⟩

theorem Lifted.of_tracks {out : List Skb} {b : Buffer RecvMsdu} {c : ReordCtrl}
    {q : RxQueues} (ht : Tracks out b c q) (hok : Ok 64 b)
    (hlow : ∀ h, b.head = some h → 2048 ≤ h) : Lifted c :=
  ⟨_, q, ht.reset q, ⟨hok.sorted, hok.fresh, hok.window⟩, hlow⟩

/-- The whole numbers for any queues. -/
theorem Lifted.tracks {c : ReordCtrl} (hc : Lifted c) (q : RxQueues) :
    ∃ b, Tracks q.indicated b c q ∧ Ok 64 b ∧ ∀ h, b.head = some h → 2048 ≤ h := by
  obtain ⟨b, q₀, ht, hok, hlow⟩ := hc
  exact ⟨_, ht.reset q, ⟨hok.sorted, hok.fresh, hok.window⟩, hlow⟩

/-- Every sequence number is that of a whole number near the head. -/
theorem exists_near {b : Buffer RecvMsdu} (hlow : ∀ h, b.head = some h → 2048 ≤ h)
    {s : Nat} (hs : s < 4096) : ∃ n, s = n % 4096 ∧ 2048 ≤ b.head.getD n ∧
      ∀ h, b.head = some h → h ≤ n + 2048 ∧ n < h + 2048 := by
  cases hhead : b.head with
  | none =>
    refine ⟨s + 4096, by omega, ?_, fun h hh => (by cases hh)⟩
    show 2048 ≤ s + 4096
    omega
  | some h =>
    have hh := hlow h hhead
    refine ⟨h - 2048 + (s + 4096 - (h - 2048) % 4096) % 4096, by omega, hh, fun h' hh' => ?_⟩
    obtain rfl := Option.some.inj hh'
    omega

/-- The whole numbers of a traffic class that gets a frame. -/
theorem Represented.reenable {c : ReordCtrl} (hc : Represented c) (q : RxQueues) :
    ∃ b, Tracks q.indicated b c.reenable q ∧ Ok 64 b ∧
      ∀ h, b.head = some h → 2048 ≤ h := by
  rcases hc with ⟨hdis, hnil⟩ | hlift
  · refine ⟨Buffer.empty, ?_, Ok.empty 64, fun h hh => (by cases hh)⟩
    unfold ReordCtrl.reenable
    rw [if_pos hdis]
    exact ⟨rfl, rfl, fun _ => rfl, fun h hh => (by cases hh), hnil,
      fun x hx => (by cases hx), (List.append_nil _).symm⟩
  · obtain ⟨b, ht, hrest⟩ := hlift.tracks q
    unfold ReordCtrl.reenable
    rw [if_neg (by rw [ht.enable]; decide)]
    exact ⟨b, ht, hrest⟩

/-- A frame keeps the invariant. -/
theorem Represented.frame {c : ReordCtrl} (hc : Represented c) (q : RxQueues) {f : RecvMsdu}
    (hf : f.seqNum.toNat < 4096) : Lifted (reordFrame c.reenable q f).1 := by
  obtain ⟨b, ht, hok, hlow⟩ := hc.reenable q
  obtain ⟨n, hn, hge, hnear⟩ := exists_near hlow hf
  refine Lifted.of_tracks (ht.receive hok (x := (n, f)) hn hnear)
    (hok.receive (by decide) _) fun h hh => ?_
  exact hge.trans (le_head_receive hh)

theorem Lifted.worker {c : ReordCtrl} (hc : Lifted c) (q : RxQueues) :
    Lifted (reordTimeoutWorker c q).1 := by
  obtain ⟨b, ht, hok, hlow⟩ := hc.tracks q
  refine Lifted.of_tracks (ht.timeout hok) hok.timeout fun h' hh' => ?_
  cases hhead : b.head with
  | some h => exact (hlow h hhead).trans (hok.le_head_timeout hhead hh')
  | none =>
    unfold timeout at hh'
    rw [hok.fresh hhead, hhead] at hh'
    cases hh'

/-- The timer is not part of the window. -/
theorem Represented.of_eq {c c' : ReordCtrl} (hc : Represented c)
    (henable : c'.enable = c.enable) (hind : c'.indSn = c.indSn) (hws : c'.wsizeB = c.wsizeB)
    (hlist : c'.reordList = c.reordList) : Represented c' := by
  rcases hc with ⟨hdis, hnil⟩ | ⟨b, q, ht, hrest⟩
  · exact Or.inl ⟨henable.trans hdis, hlist.trans hnil⟩
  · exact Or.inr ⟨b, q, ⟨henable.trans ht.enable, hws.trans ht.wsize,
      fun h => hind.trans (ht.fresh h), fun h hh => hind ▸ ht.head h hh,
      hlist.trans ht.pending, ht.numbered, ht.indicated⟩, hrest⟩

theorem represented_kept : KeptByAll Represented fun _ => True where
  fresh := Or.inr ⟨_, ⟨[], [], []⟩, Tracks.start _, Ok.empty 64, fun _ hh => (by cases hh)⟩
  frame c q f hf hc := Or.inr (hc.frame q hf)
  flush c q hc := by
    unfold reordFlush
    split_ifs with hdis
    · exact hc
    · exact Or.inl ⟨rfl, rfl⟩
  handler c busUp _ hc := by
    unfold reordTimeoutHandler
    cases busUp
    · exact hc.of_eq rfl rfl rfl rfl
    · exact hc.of_eq rfl rfl rfl rfl
  worker c q hc := by
    rcases hc with ⟨hdis, hnil⟩ | hlift
    · rw [reordTimeoutWorker_nil q hnil]
      exact Or.inl ⟨hdis, hnil⟩
    · exact Or.inr (hlift.worker q)

/-- Numbers that increase and lie below a bound are few. -/
theorem length_lt_of_increasing {α : Type*} {g : α → Nat} {l : List α} {n : Nat}
    (hl : l.Pairwise fun x y => g x < g y) (hn : 0 < n) (h : ∀ x ∈ l, 0 < g x ∧ g x < n) :
    l.length < n := by
  have hnd : (l.map g).Nodup :=
    (List.pairwise_map.mpr hl).imp fun hlt => Nat.ne_of_lt hlt
  have hsub : l.map g ⊆ List.range' 1 (n - 1) := by
    intro k hk
    obtain ⟨x, hx, rfl⟩ := List.mem_map.mp hk
    have := h x hx
    rw [List.mem_range'_1]
    omega
  have hle := (hnd.subperm hsub).length_le
  rw [List.length_map, List.length_range'] at hle
  omega

theorem Represented.windowed {c : ReordCtrl} (hc : Represented c) : Windowed c := by
  rcases hc with ⟨hdis, hnil⟩ | ⟨b, q, ht, hok, hlow⟩
  · refine ⟨fun _ => hnil, ?_, ?_, ?_⟩ <;> rw [hnil]
    · exact List.Pairwise.nil
    · intro f hf
      cases hf
    · exact Nat.succ_pos 63
  · -- the distance is that of the whole numbers
    have hahead : ∀ h, b.head = some h → ∀ x ∈ b.pending, c.ahead x.2 = x.1 - h := by
      intro h hh x hx
      have hwin := hok.window h hh x hx
      unfold ReordCtrl.ahead
      rw [ht.numbered x hx, ht.head h hh]
      omega
    cases hhead : b.head with
    | none =>
      have hnil : c.reordList = [] := by
        rw [ht.pending, hok.fresh hhead]
        rfl
      refine ⟨fun _ => hnil, ?_, ?_, ?_⟩ <;> rw [hnil]
      · exact List.Pairwise.nil
      · intro f hf
        cases hf
      · exact Nat.succ_pos 63
    | some h =>
      have hsorted : c.reordList.Pairwise fun f g => c.ahead f < c.ahead g := by
        rw [ht.pending, List.pairwise_map]
        refine hok.sorted.imp_of_mem fun {x y} hx hy hlt => ?_
        rw [hahead h hhead x hx, hahead h hhead y hy]
        have := hok.window h hhead x hx
        omega
      have hwindow : ∀ f ∈ c.reordList, 0 < c.ahead f ∧ c.ahead f < 64 := by
        intro f hf
        rw [ht.pending] at hf
        obtain ⟨x, hx, rfl⟩ := List.mem_map.mp hf
        rw [hahead h hhead x hx]
        have := hok.window h hhead x hx
        omega
      exact ⟨fun hdis => absurd (hdis.symm.trans ht.enable) (by decide), hsorted, hwindow,
        length_lt_of_increasing hsorted (by decide) hwindow⟩

theorem AllCtrl.mono {P Q : ReordCtrl → Prop} (hPQ : ∀ c, P c → Q c) {rx : AicwfRxPriv}
    (h : AllCtrl P rx) : AllCtrl Q rx :=
  fun info hinfo tid => hPQ _ (h info hinfo tid)

theorem AllCtrl.init (P : ReordCtrl → Prop) : AllCtrl P aicwfRxInit :=
  fun info hinfo => (by cases hinfo)

/-- In every state of every run the frames that wait are sorted, have different
numbers and are inside of the window, and a list without a session is empty. -/
theorem reordLists_windowed (es : List RxEvent) :
    Transition.Always rxStep (AllCtrl Windowed) es aicwfRxInit := by
  have hrep : Transition.Always rxStep (AllCtrl Represented) es aicwfRxInit :=
    Transition.always_of_step
      (fun rx e rx' h hstep => forall_ctrl_step represented_kept h (fun _ _ _ => trivial) hstep)
      es (AllCtrl.init _)
  exact hrep.mono fun rx h => h.mono fun c hc => hc.windowed

/-! ## The timer -/

/-- Frames that wait have a timer or a work that will pass them on. -/
def Armed (c : ReordCtrl) : Prop :=
  c.reordList ≠ [] → c.timerPending = true ∨ c.workPending = true

/-- The frames that stay on the list after both loops make the first one report
them. -/
theorem inBuf_of_stays {ind : BitVec 16} {h : Nat} {l : List (Nat × RecvMsdu)} {q : RxQueues}
    (hind : ind.toNat = h % 4096) (hl : Numbered l) (hs : Sorted l)
    (hnear : ∀ y ∈ l, y.1 ≤ h + 2048 ∧ advance h l < y.1 + 2048)
    (hin : (indLoop (processLoop ind (l.map Prod.snd)).2 (l.map Prod.snd) q).1 ≠ []) :
    (processLoop ind (l.map Prod.snd)).1 = true := by
  have hadv := le_advance h l
  have hnear' : ∀ y ∈ l, y.1 ≤ h + 2048 ∧ h < y.1 + 2048 := by
    intro y hy
    have := hnear y hy
    omega
  apply processLoop_inBuf hind hl hs hnear'
  intro hnil
  have hloop := indLoop_eq q (processLoop_eq hind hl hs hnear') hl (ne_advance hs) fun y hy => by
    have := hnear y hy
    omega
  rw [hloop.1, hnil] at hin
  exact hin rfl

theorem Armed.reenable {c : ReordCtrl} (hc : Armed c) : Armed c.reenable := by
  unfold ReordCtrl.reenable
  split_ifs
  · exact hc
  · exact hc

theorem Armed.frame {c : ReordCtrl} (hc : Armed c) (hrep : Represented c) (q : RxQueues)
    {f : RecvMsdu} (hf : f.seqNum.toNat < 4096) : Armed (reordFrame c.reenable q f).1 := by
  obtain ⟨b, ht, hok, hlow⟩ := hrep.reenable q
  obtain ⟨n, hn, -, hnear⟩ := exists_near hlow hf
  obtain ⟨hlate, hlist⟩ := ht.needCheck hn hnear
  have hc' := hc.reenable
  by_cases hlt : n < b.head.getD n
  · rw [reordFrame_direct ht.enable (hlate hlt)]
    exact hc'
  · obtain ⟨ind, hcheck, hind⟩ := hlist (not_lt.mp hlt)
    have henq := ht.enqueue hok (x := (n, f)) hn hnear hlt
    cases hins : ReorderBuffer.insert (n, f) b.pending with
    | none =>
      rw [hins] at henq
      rw [reordFrame_duplicate ht.enable hcheck henq]
      exact hc'
    | some l =>
      rw [hins] at henq
      rw [reordFrame_enqueue ht.enable hcheck henq, reordRxframesProcess_false]
      obtain ⟨hs, hl, hmem⟩ := ht.inserted hok (x := (n, f)) hn hnear hlt hins
      exact fun hin => Or.inl (inBuf_of_stays hind hl hs hmem hin)

theorem Armed.worker {c : ReordCtrl} (hrep : Represented c) (q : RxQueues) :
    Armed (reordTimeoutWorker c q).1 := by
  rcases hrep with ⟨hdis, hnil⟩ | hlift
  · rw [reordTimeoutWorker_nil q hnil]
    exact fun hin => absurd hnil hin
  · obtain ⟨b, ht, hok, hlow⟩ := hlift.tracks q
    have hlist := ht.pending
    cases hpend : b.pending with
    | nil =>
      rw [hpend] at hlist
      rw [reordTimeoutWorker_nil q hlist]
      exact fun hin => absurd hlist hin
    | cons x l =>
      rw [hpend] at hlist
      rw [reordTimeoutWorker_cons q hlist]
      obtain ⟨hs, hl, hmem⟩ := ht.forced hok hpend
      intro hin
      have hstays : (indLoop (processLoop x.2.seqNum ((x :: l).map Prod.snd)).2
          c.reordList q).1 ≠ [] := hin
      rw [hlist] at hstays
      left
      show ((processLoop x.2.seqNum ((x :: l).map Prod.snd)).1 || c.timerPending) = true
      refine Bool.or_eq_true_iff.mpr
        (Or.inl (inBuf_of_stays (hl x List.mem_cons_self) hl hs hmem hstays))

end LonganPi.Wifi
