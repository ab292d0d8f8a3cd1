import LonganPi.Iommu.Domain
import LonganPi.Lib.Transition

/-!
# The lifecycle of the domain

`DomainSafe` says what the driver promises in every state: a domain that a
client holds is live, every block of pages belongs to a live domain, no freed
domain was read, and the hardware walks the directory of the live domain.

A free leaves the pointer to the domain behind.  The next alloc returns it,
and the next resume reads through it.  The other defect is the way out of a
failed `iommu_get_dma_cookie`, which forgets the buffer that was allocated
last.  `domainGuard` excludes the three calls and nothing else:
`domainSafe_iff`.

The proof follows the three shapes of the driver: nothing allocated yet, one
live domain, and one that has been freed.
-/

namespace LonganPi.Iommu

open Transition

namespace IommuDriver

variable {cfg : IommuConfig} {s s' : IommuDriver}

/-! ## The promise -/

/-- What the driver promises in every state. -/
structure DomainSafe (s : IommuDriver) : Prop where
  /-- No client holds a freed domain, and no domain is lost. -/
  held_iff : ∀ d, s.held d = true ↔ ∃ dom, s.domains d = some dom
  /-- No block of pages is lost. -/
  pages_owned : ∀ pa b, s.pages pa = some b → ∃ d dom,
    s.domains d = some dom ∧ (dom.pgtable = some pa ∨ dom.sgBuffer = some pa)
  /-- The hardware walks the directory of the live domain. -/
  ttb : ∀ d dom, s.domains d = some dom → s.iommuHwInitFlag = true →
    ∃ pa t, dom.pgtable = some pa ∧ s.pages pa = some (.directory t) ∧
      iommuPhyToCpuPhy .v1 (s.regs .ttb) = pa
  noUseAfterFree : s.useAfterFree = false

/-- One domain and its two blocks of pages. -/
structure LiveAt (s : IommuDriver) (d pa sg : Nat) (t : Pgtable) : Prop where
  global : s.globalSunxiIommuDomain = some d
  domains : s.domains
    = Function.update (fun _ => none) d (some ⟨some pa, some sg⟩)
  pages : s.pages = Function.update
    (Function.update (fun _ => none) pa (some (.directory t))) sg
      (some .sgBuffer)
  pages_ne : pa ≠ sg
  inWindow : InPhysWindow .v1 pa
  wellFormed : WellFormed .v1 t
  ttb : s.regs .ttb = u32 pa

/-- No domain and no pages. -/
structure NoneLive (s : IommuDriver) : Prop where
  domains : s.domains = fun _ => none
  pages : s.pages = fun _ => none

/-- The shapes that the driver goes through. -/
inductive Shape (s : IommuDriver) : Prop where
  | fresh (hnone : s.NoneLive) (hglobal : s.globalSunxiIommuDomain = none)
      (hflag : s.iommuHwInitFlag = false)
  | live (d pa sg : Nat) (t : Pgtable) (hlive : s.LiveAt d pa sg t)
  | freed (d : Nat) (hnone : s.NoneLive)
      (hglobal : s.globalSunxiIommuDomain = some d)

/-- The exported alias is the same pointer. -/
structure DomainInv (s : IommuDriver) : Prop where
  shape : s.Shape
  alias_eq : s.globalIommuDomain = s.globalSunxiIommuDomain

/-! ## The hardware -/

/-- At most the registers and the flag differ, and the hardware walks the
directory at `pa`. -/
structure Programmed (pa : Nat) (s s' : IommuDriver) : Prop where
  global : s'.globalSunxiIommuDomain = s.globalSunxiIommuDomain
  alias_eq : s'.globalIommuDomain = s.globalIommuDomain
  domains : s'.domains = s.domains
  pages : s'.pages = s.pages
  held : s'.held = s.held
  useAfterFree : s'.useAfterFree = s.useAfterFree
  ttb : s'.regs .ttb = u32 pa

/-- Any other register may be written afterwards. -/
theorem Programmed.write {pa : Nat} (h : Programmed pa s s') (reg : IommuReg)
    (hreg : reg ≠ .ttb) (value : Nat) :
    Programmed pa s (s'.sunxiIommuWrite reg value) where
  global := h.global
  alias_eq := h.alias_eq
  domains := h.domains
  pages := h.pages
  held := h.held
  useAfterFree := h.useAfterFree
  ttb := (Function.update_of_ne hreg.symm _ _).trans h.ttb

theorem Programmed.ite {pa : Nat} {p : Prop} [Decidable p]
    {s'' : IommuDriver} (h : Programmed pa s s') (h' : Programmed pa s s'') :
    Programmed pa s (if p then s' else s'') := by
  split_ifs
  · exact h
  · exact h'

theorem hwInitRegs_programmed (cfg : IommuConfig) (s : IommuDriver)
    (pa : Nat) : Programmed pa s (s.hwInitRegs cfg pa) := by
  have httb : Programmed pa s (s.sunxiIommuWrite .ttb pa) := by
    refine ⟨rfl, rfl, rfl, rfl, rfl, rfl, ?_⟩
    show Function.update s.regs .ttb (u32 pa) .ttb = u32 pa
    rw [Function.update_self]
  have hprefetch := httb.write .tlbPrefetch (by decide)
    cfg.tlbPrefetch
  have htlbMode := (hprefetch.write .tlbIvldModeSel (by decide)
    cfg.tlbInvalidMode).ite (p := cfg.version ≥ iommuVersionV12) hprefetch
  have hptwMode := (htlbMode.write .pcIvldModeSel (by decide)
    cfg.ptwInvalidMode).ite (p := cfg.version ≥ iommuVersionV14) htlbMode
  exact (hptwMode.write _ (by decide) _).write _ (by decide) _

/-- `sunxi_iommu_hw_init` writes the address that it read, also when it fails
later. -/
theorem hwInit_of_read {s₁ : IommuDriver} (cfg : IommuConfig) {d pa : Nat} {hw : HwAnswer}
    (hread : s.readPgtable d hw.junk = (s₁, pa)) :
    Programmed pa s₁ (sunxiIommuHwInit cfg s d hw).1 := by
  have hregs := hwInitRegs_programmed cfg s₁ pa
  have hflush := hregs.write .tlbFlushEnable (by decide) 0x0003007f
  have hgating := hflush.write .autoGating (by decide) 0x1
  have henable := hgating.write .enable (by decide) 0x1
  simp only [sunxiIommuHwInit, hread, sunxiTlbFlush]
  by_cases hflushed : hw.flushed = true
  · rw [if_pos hflushed, if_neg (not_not.mpr rfl)]
    split_ifs
    · exact henable
    · exact ⟨henable.global, henable.alias_eq, henable.domains,
        henable.pages, henable.held, henable.useAfterFree, henable.ttb⟩
  · rw [if_neg hflushed, if_pos (by decide)]
    exact hflush

/-- On a live domain it writes the address of its directory. -/
theorem hwInit_programmed (cfg : IommuConfig) {d pa : Nat} {sg : Option Nat}
    (hd : s.domains d = some ⟨some pa, sg⟩) (hw : HwAnswer) :
    Programmed pa s (sunxiIommuHwInit cfg s d hw).1 := by
  have hread : s.readPgtable d hw.junk = (s, pa) := by
    simp only [readPgtable, hd, Option.getD_some]
  exact hwInit_of_read cfg hread

/-- On a domain that is not live it reads freed memory. -/
theorem hwInit_freed (cfg : IommuConfig) {d : Nat} (hd : s.domains d = none) (hw : HwAnswer) :
    (sunxiIommuHwInit cfg s d hw).1.useAfterFree = true := by
  have hread : s.readPgtable d hw.junk
      = ({ s with useAfterFree := true }, hw.junk) := by
    simp only [readPgtable, hd]
  exact (hwInit_of_read cfg hread).useAfterFree

/-! ## Alloc -/

section Alloc

variable {type d pa sg : Nat} {o : AllocOutcome}

/-- `sunxi_iommu_domain_alloc` supports the type. -/
def Supported (type : Nat) : Prop :=
  type = iommuDomainDma ∨ type = iommuDomainUnmanaged

theorem supported_iff : Supported type ↔
    ¬ (type ≠ iommuDomainDma ∧ type ≠ iommuDomainUnmanaged) := by
  unfold Supported
  rw [not_and_or, not_not, not_not]

/-- The three allocations of a new domain succeed. -/
structure Gets (s : IommuDriver) (o : AllocOutcome) (d pa sg : Nat) :
    Prop where
  domain : s.kzallocResult o.domain = some d
  pgtable : s.getFreePages o.pgtable = some pa
  sgBuffer : (s.setPages pa (.directory (sunxiPgtableAlloc o.slab))).getFreePages
    o.sgBuffer = some sg

theorem kzallocResult_some {outcome : Option Nat}
    (h : s.kzallocResult outcome = some d) : s.domains d = none := by
  unfold kzallocResult at h
  cases outcome with
  | none => cases h
  | some c =>
    dsimp only at h
    split_ifs at h with hfree
    rwa [← Option.some.inj h]

theorem getFreePages_some {outcome : Option Nat}
    (h : s.getFreePages outcome = some pa) :
    s.pages pa = none ∧ InPhysWindow .v1 pa := by
  unfold getFreePages at h
  cases outcome with
  | none => cases h
  | some c =>
    dsimp only at h
    split_ifs at h with hfree
    rw [← Option.some.inj h]
    exact ⟨Option.isNone_iff_eq_none.mp hfree.1, hfree.2⟩

/-- The two blocks of pages are different. -/
theorem Gets.ne (h : Gets s o d pa sg) : pa ≠ sg := by
  intro heq
  subst heq
  have hnone := (getFreePages_some h.sgBuffer).1
  simp [setPages] at hnone

@[simp] theorem getFreePages_setDomain (dom : SunxiIommuDomain)
    (outcome : Option Nat) :
    (s.setDomain d dom).getFreePages outcome = s.getFreePages outcome := rfl

@[simp] theorem setPages_setDomain (dom : SunxiIommuDomain) (b : PageBlock) :
    (s.setDomain d dom).setPages pa b = (s.setPages pa b).setDomain d dom := rfl

@[simp] theorem setDomain_setDomain (dom dom' : SunxiIommuDomain) :
    (s.setDomain d dom).setDomain d dom' = s.setDomain d dom' := by
  simp only [setDomain, Function.update_idem]

/-- Freeing a domain that was just allocated. -/
theorem kfree_setDomain (dom : SunxiIommuDomain) (hd : s.domains d = none) :
    (s.setDomain d dom).kfree d = s := by
  simp only [setDomain, kfree, Function.update_idem]
  rw [← hd, Function.update_eq_self]

/-- The way out frees the domain and its directory. -/
theorem errSgBuffer_setDomain (dom : SunxiIommuDomain)
    (hd : s.domains d = none) :
    (s.setDomain d dom).errSgBuffer d pa
      = ({ s with pages := Function.update s.pages pa none }, none) := by
  show ((setDomain { s with pages := Function.update s.pages pa none }
    d dom).kfree d, (none : Option Nat)) = _
  rw [kfree_setDomain _ (by exact hd)]

/-- The domain is in place, and the hardware is not programmed yet. -/
def withDomain (s : IommuDriver) (o : AllocOutcome) (d pa sg : Nat) :
    IommuDriver :=
  { s with
    globalSunxiIommuDomain := some d
    globalIommuDomain := some d
    domains := Function.update s.domains d (some ⟨some pa, some sg⟩)
    pages := Function.update (Function.update s.pages pa
      (some (.directory (sunxiPgtableAlloc o.slab)))) sg (some .sgBuffer) }

/-- An alloc that does not get its memory leaves nothing behind. -/
theorem alloc_noMemory (htype : Supported type)
    (hglobal : s.globalSunxiIommuDomain = none)
    (hnot : ∀ d pa sg, ¬ Gets s o d pa sg) :
    s.sunxiIommuDomainAlloc cfg type o = (s, none) := by
  unfold sunxiIommuDomainAlloc
  rw [if_neg (supported_iff.mp htype)]
  simp only [hglobal]
  cases hd : s.kzallocResult o.domain with
  | none => rfl
  | some d =>
    have hnone := kzallocResult_some hd
    cases hpa : s.getFreePages o.pgtable with
    | none =>
      simp only [getFreePages_setDomain, hpa, kfree_setDomain _ hnone]
    | some pa =>
      have hsg : (s.setPages pa (.directory (sunxiPgtableAlloc o.slab))).getFreePages
          o.sgBuffer = none := by
        by_contra hsome
        obtain ⟨sg, hsg⟩ := Option.ne_none_iff_exists'.mp hsome
        exact hnot d pa sg ⟨hd, hpa, hsg⟩
      simp only [getFreePages_setDomain, hpa, setPages_setDomain,
        setDomain_setDomain, hsg]
      rw [errSgBuffer_setDomain _ (by exact hnone)]
      simp only [setPages, Function.update_idem]
      rw [← (getFreePages_some hpa).1, Function.update_eq_self]

/-- The way out of a failed `iommu_get_dma_cookie` leaves the scatter-gather
buffer behind. -/
theorem alloc_noCookie (hglobal : s.globalSunxiIommuDomain = none)
    (hcfg : cfg.cookieHandleByCore = false) (hcookie : o.cookie = false)
    (h : Gets s o d pa sg) :
    s.sunxiIommuDomainAlloc cfg iommuDomainDma o
      = (s.setPages sg .sgBuffer, none) := by
  unfold sunxiIommuDomainAlloc
  rw [if_neg (supported_iff.mp (Or.inl rfl))]
  simp only [hglobal, h.domain, getFreePages_setDomain, h.pgtable,
    setPages_setDomain, setDomain_setDomain, h.sgBuffer]
  rw [if_pos ⟨hcfg, trivial, hcookie⟩,
    errSgBuffer_setDomain _ (by exact kzallocResult_some h.domain)]
  have hsame : Function.update (Function.update s.pages sg
      (some .sgBuffer)) pa none
        = Function.update s.pages sg (some .sgBuffer) := by
    rw [Function.update_eq_self_iff, Function.update_of_ne h.ne]
    exact (getFreePages_some h.pgtable).1.symm
  simp only [setPages]
  rw [Function.update_comm h.ne, Function.update_idem, hsame]

/-- A new domain. -/
theorem alloc_new (htype : Supported type)
    (hglobal : s.globalSunxiIommuDomain = none)
    (hflag : s.iommuHwInitFlag = false) (h : Gets s o d pa sg)
    (hcookie : cfg.cookieHandleByCore = false → type = iommuDomainDma →
      o.cookie = true) :
    s.sunxiIommuDomainAlloc cfg type o
      = (((s.withDomain o d pa sg).sunxiIommuHwInit cfg d o.hw).1, some d) := by
  unfold sunxiIommuDomainAlloc
  rw [if_neg (supported_iff.mp htype)]
  simp only [hglobal, h.domain, getFreePages_setDomain, h.pgtable,
    setPages_setDomain, setDomain_setDomain, h.sgBuffer]
  rw [if_neg]
  · rw [if_neg (by simp [setDomain, setPages, hflag])]
    rfl
  · intro hboth
    obtain ⟨hcfg, hdma, hfail⟩ := hboth
    rw [hcookie hcfg hdma] at hfail
    cases hfail

end Alloc

/-! ## The shapes -/

/-- The live domain is the only one. -/
theorem LiveAt.exists_iff {d pa sg : Nat} {t : Pgtable}
    (h : s.LiveAt d pa sg t) (c : Nat) :
    (∃ dom, s.domains c = some dom) ↔ c = d := by
  rw [h.domains]
  by_cases hcd : c = d
  · rw [hcd, Function.update_self]
    exact iff_of_true ⟨_, rfl⟩ rfl
  · rw [Function.update_of_ne hcd]
    exact iff_of_false (by simp) hcd

/-- The pointer that the driver keeps is that of the live domain. -/
theorem LiveAt.lookup {d pa sg : Nat} {t : Pgtable}
    (h : s.LiveAt d pa sg t) : s.domains d = some ⟨some pa, some sg⟩ := by
  rw [h.domains, Function.update_self]

/-- With one live domain the promise is about the clients alone. -/
theorem LiveAt.safe {d pa sg : Nat} {t : Pgtable} (h : s.LiveAt d pa sg t)
    (hheld : ∀ c, s.held c = true ↔ c = d)
    (hread : s.useAfterFree = false) : s.DomainSafe where
  held_iff c := (hheld c).trans (h.exists_iff c).symm
  pages_owned p b hp := by
    refine ⟨d, ⟨some pa, some sg⟩, h.lookup, ?_⟩
    rw [h.pages] at hp
    by_cases hsg : p = sg
    · exact Or.inr (congrArg some hsg.symm)
    · rw [Function.update_of_ne hsg] at hp
      by_cases hpa : p = pa
      · exact Or.inl (congrArg some hpa.symm)
      · rw [Function.update_of_ne hpa] at hp
        cases hp
  ttb c dom hc _ := by
    obtain rfl := (h.exists_iff c).mp ⟨dom, hc⟩
    obtain rfl := Option.some.inj (h.lookup.symm.trans hc)
    refine ⟨pa, t, rfl, ?_, ?_⟩
    · rw [h.pages, Function.update_of_ne h.pages_ne, Function.update_self]
    · exact iommuPhyToCpuPhy_of_mod h.inWindow h.ttb
  noUseAfterFree := hread

/-- Without a domain nobody may hold one. -/
theorem NoneLive.safe (h : s.NoneLive) (hheld : ∀ d, s.held d = false)
    (hread : s.useAfterFree = false) : s.DomainSafe where
  held_iff d := by
    rw [hheld d, h.domains]
    simp
  pages_owned pa b hp := by
    rw [h.pages] at hp
    cases hp
  ttb d dom hd := by
    rw [h.domains] at hd
    cases hd
  noUseAfterFree := hread

theorem LiveAt.held {d pa sg : Nat} {t : Pgtable} (h : s.LiveAt d pa sg t)
    (hsafe : s.DomainSafe) (c : Nat) : s.held c = true ↔ c = d :=
  (hsafe.held_iff c).trans (h.exists_iff c)

theorem NoneLive.held (h : s.NoneLive) (hsafe : s.DomainSafe) (d : Nat) :
    s.held d = false := by
  rw [← Bool.not_eq_true, hsafe.held_iff d, h.domains]
  simp

/-! ## Steps -/

/-- `global_sunxi_iommu_domain` is null or points to a live domain. -/
def GlobalLive (s : IommuDriver) : Prop :=
  ∀ d, s.globalSunxiIommuDomain = some d → ∃ dom, s.domains d = some dom

/-- A new domain that needs a cookie of the driver gets it. -/
def CookieOk (cfg : IommuConfig) (s : IommuDriver) (type : Nat)
    (o : AllocOutcome) : Prop :=
  s.globalSunxiIommuDomain = none → cfg.cookieHandleByCore = false →
    type = iommuDomainDma → ∀ d pa sg, Gets s o d pa sg → o.cookie = true

/-- The condition on a call under which the promise is kept. -/
def domainGuard (cfg : IommuConfig) (s : IommuDriver) : DomainOp → Prop
  | .alloc type o => Supported type → s.GlobalLive ∧ s.CookieOk cfg type o
  | .resume _ _ => s.GlobalLive
  | _ => True

theorem LiveAt.globalLive {d pa sg : Nat} {t : Pgtable}
    (h : s.LiveAt d pa sg t) : s.GlobalLive := by
  intro c hc
  rw [h.global] at hc
  cases hc
  exact ⟨_, h.lookup⟩

theorem NoneLive.not_globalLive (h : s.NoneLive) {d : Nat}
    (hglobal : s.globalSunxiIommuDomain = some d) : ¬ s.GlobalLive := by
  intro hlive
  obtain ⟨dom, hdom⟩ := hlive d hglobal
  rw [h.domains] at hdom
  cases hdom

/-- `hw_init` of a domain in place makes it the live one. -/
theorem Programmed.liveAt {d pa sg : Nat} {t : Pgtable}
    (h : Programmed pa s s')
    (hglobal : s.globalSunxiIommuDomain = some d)
    (hdomains : s.domains
      = Function.update (fun _ => none) d (some ⟨some pa, some sg⟩))
    (hpages : s.pages = Function.update
      (Function.update (fun _ => none) pa (some (.directory t))) sg
        (some .sgBuffer))
    (hne : pa ≠ sg) (hwin : InPhysWindow .v1 pa) (hwf : WellFormed .v1 t) :
    s'.LiveAt d pa sg t where
  global := h.global.trans hglobal
  domains := h.domains.trans hdomains
  pages := h.pages.trans hpages
  pages_ne := hne
  inWindow := hwin
  wellFormed := hwf
  ttb := h.ttb

/-- The clients are no part of the shape. -/
theorem LiveAt.withHeld {d pa sg : Nat} {t : Pgtable}
    (h : s.LiveAt d pa sg t) (held : Nat → Bool) :
    { s with held }.LiveAt d pa sg t :=
  ⟨h.global, h.domains, h.pages, h.pages_ne, h.inWindow, h.wellFormed, h.ttb⟩

section Alloc

variable {type : Nat} {o : AllocOutcome}

/-- The first alloc makes a domain and programs the hardware. -/
theorem alloc_first (cfg : IommuConfig) (hnone : s.NoneLive)
    (hglobal : s.globalSunxiIommuDomain = none)
    (hflag : s.iommuHwInitFlag = false) (hsafe : s.DomainSafe)
    (htype : Supported type) {d pa sg : Nat} (hgets : Gets s o d pa sg)
    (hcookie : cfg.cookieHandleByCore = false → type = iommuDomainDma →
      o.cookie = true)
    (hstep : domainStep cfg s (.alloc type o) = some s') :
    s'.DomainSafe ∧ s'.DomainInv := by
  simp only [domainStep, alloc_new htype hglobal hflag hgets hcookie] at hstep
  obtain rfl := Option.some.inj hstep
  have hprog : Programmed pa (s.withDomain o d pa sg)
      ((s.withDomain o d pa sg).sunxiIommuHwInit cfg d o.hw).1 :=
    hwInit_programmed cfg (Function.update_self d _ s.domains) o.hw
  have hinit : LiveAt _ d pa sg (sunxiPgtableAlloc o.slab) :=
    hprog.liveAt rfl (by simp only [withDomain, hnone.domains])
      (by simp only [withDomain, hnone.pages]) hgets.ne
      (getFreePages_some hgets.pgtable).2 (wellFormed_alloc .v1 o.slab)
  have hlive := hinit.withHeld (Function.update
    ((s.withDomain o d pa sg).sunxiIommuHwInit cfg d o.hw).1.held d true)
  refine ⟨hlive.safe (fun c => ?_) ?_, .live d pa sg _ hlive, ?_⟩
  · show Function.update
      ((s.withDomain o d pa sg).sunxiIommuHwInit cfg d o.hw).1.held d true c
        = true ↔ c = d
    rw [hprog.held]
    by_cases hcd : c = d
    · subst hcd
      exact iff_of_true (Function.update_self _ _ _) rfl
    · rw [Function.update_of_ne hcd]
      refine iff_of_false ?_ hcd
      rw [Bool.not_eq_true]
      exact hnone.held hsafe c
  · exact hprog.useAfterFree.trans hsafe.noUseAfterFree
  · exact hprog.alias_eq.trans hprog.global.symm

/-- An alloc while there is no domain. -/
theorem alloc_fresh (hinv : s.DomainInv) (hnone : s.NoneLive)
    (hglobal : s.globalSunxiIommuDomain = none)
    (hflag : s.iommuHwInitFlag = false) (hsafe : s.DomainSafe)
    (htype : Supported type)
    (hstep : domainStep cfg s (.alloc type o) = some s') :
    (s'.DomainSafe ↔ s.CookieOk cfg type o) ∧
      (s'.DomainSafe → s'.DomainInv) := by
  by_cases hgets : ∃ d pa sg, Gets s o d pa sg
  case neg =>
    have hnot : ∀ d pa sg, ¬ Gets s o d pa sg :=
      fun d pa sg h => hgets ⟨d, pa, sg, h⟩
    simp only [domainStep, alloc_noMemory htype hglobal hnot] at hstep
    obtain rfl := Option.some.inj hstep
    exact ⟨iff_of_true hsafe fun _ _ _ d pa sg h => absurd h (hnot d pa sg),
      fun _ => hinv⟩
  rcases hgets with ⟨d, pa, sg, hgets⟩
  by_cases hfail : cfg.cookieHandleByCore = false ∧ type = iommuDomainDma
      ∧ o.cookie = false
  · rcases hfail with ⟨hcfg, rfl, hcookie⟩
    simp only [domainStep, alloc_noCookie hglobal hcfg hcookie hgets] at hstep
    obtain rfl := Option.some.inj hstep
    have hbad : ¬ (s.setPages sg .sgBuffer).DomainSafe := by
      intro h
      obtain ⟨c, dom, hc, -⟩ := h.pages_owned sg .sgBuffer
        (Function.update_self _ _ _)
      have hc' : s.domains c = some dom := hc
      rw [hnone.domains] at hc'
      cases hc'
    refine ⟨iff_of_false hbad fun h => ?_, fun h => absurd h hbad⟩
    have := h hglobal hcfg rfl d pa sg hgets
    rw [hcookie] at this
    cases this
  · have hcookie : cfg.cookieHandleByCore = false → type = iommuDomainDma →
        o.cookie = true := by
      intro hcfg hdma
      rw [← Bool.not_eq_false]
      exact fun hno => hfail ⟨hcfg, hdma, hno⟩
    obtain ⟨hsafe', hinv'⟩ :=
      alloc_first cfg hnone hglobal hflag hsafe htype hgets hcookie hstep
    exact ⟨iff_of_true hsafe' fun _ hcfg hdma _ _ _ _ => hcookie hcfg hdma,
      fun _ => hinv'⟩

/-- With a global domain, alloc returns it. -/
theorem alloc_global {d : Nat} (htype : Supported type)
    (hglobal : s.globalSunxiIommuDomain = some d) :
    s.sunxiIommuDomainAlloc cfg type o = (s, some d) := by
  unfold sunxiIommuDomainAlloc
  rw [if_neg (supported_iff.mp htype)]
  simp only [hglobal]

/-- The step of an alloc. -/
theorem alloc_safe (hinv : s.DomainInv) (hsafe : s.DomainSafe)
    (hstep : domainStep cfg s (.alloc type o) = some s') :
    (s'.DomainSafe ↔ domainGuard cfg s (.alloc type o)) ∧
      (s'.DomainSafe → s'.DomainInv) := by
  by_cases htype : Supported type
  case neg =>
    have hsame : s.sunxiIommuDomainAlloc cfg type o = (s, none) := by
      unfold sunxiIommuDomainAlloc
      rw [if_pos (not_not.mp (mt supported_iff.mpr htype))]
    simp only [domainStep, hsame] at hstep
    obtain rfl := Option.some.inj hstep
    exact ⟨iff_of_true hsafe fun h => absurd h htype, fun _ => hinv⟩
  have hguard : domainGuard cfg s (.alloc type o) ↔
      s.GlobalLive ∧ s.CookieOk cfg type o :=
    ⟨fun h => h htype, fun h _ => h⟩
  rw [hguard]
  cases hinv.shape with
  | fresh hnone hglobal hflag =>
    have hlive : s.GlobalLive := by
      intro c hc
      rw [hglobal] at hc
      cases hc
    rw [and_iff_right hlive]
    exact alloc_fresh hinv hnone hglobal hflag hsafe htype hstep
  | live d pa sg t hlive =>
    -- The domain is held already, so nothing changes.
    have hheld : Function.update s.held d true = s.held := by
      rw [Function.update_eq_self_iff]
      exact ((hlive.held hsafe d).mpr rfl).symm
    simp only [domainStep, alloc_global htype hlive.global, hheld] at hstep
    obtain rfl := Option.some.inj hstep
    refine ⟨iff_of_true hsafe ⟨hlive.globalLive, fun hglobal => ?_⟩,
      fun _ => hinv⟩
    rw [hlive.global] at hglobal
    cases hglobal
  | freed d hnone hglobal =>
    simp only [domainStep, alloc_global htype hglobal] at hstep
    obtain rfl := Option.some.inj hstep
    have hbad : ¬ { s with held := Function.update s.held d true }.DomainSafe := by
      intro h
      obtain ⟨dom, hdom⟩ := (h.held_iff d).mp (Function.update_self _ _ _)
      have hdom' : s.domains d = some dom := hdom
      rw [hnone.domains] at hdom'
      cases hdom'
    exact ⟨iff_of_false hbad fun h => hnone.not_globalLive hglobal h.1,
      fun h => absurd h hbad⟩

end Alloc

/-- A function of the page table runs on the live domain. -/
theorem LiveAt.onPgtable {d pa sg : Nat} {t t' : Pgtable}
    (h : s.LiveAt d pa sg t) {f : Pgtable → Except Fault Pgtable}
    (hf : f t = .ok t') (hwf : WellFormed .v1 t') :
    s.onPgtable d f = some (s.setPages pa (.directory t')) ∧
      (s.setPages pa (.directory t')).LiveAt d pa sg t' := by
  have hpa : s.pages pa = some (.directory t) := by
    rw [h.pages, Function.update_of_ne h.pages_ne, Function.update_self]
  constructor
  · simp only [IommuDriver.onPgtable, h.lookup, hpa, hf]
  · refine ⟨h.global, h.domains, ?_, h.pages_ne, h.inWindow, hwf, h.ttb⟩
    show Function.update s.pages pa _ = _
    rw [h.pages, Function.update_comm h.pages_ne.symm, Function.update_idem]

/-- Only the live domain is held. -/
theorem live_of_held {d : Nat} (hinv : s.DomainInv) (hsafe : s.DomainSafe)
    (hheld : s.held d = true) : ∃ pa sg t, s.LiveAt d pa sg t := by
  cases hinv.shape with
  | fresh hnone _ _ =>
    rw [hnone.held hsafe] at hheld
    cases hheld
  | live c pa sg t hlive =>
    obtain rfl := (hlive.held hsafe d).mp hheld
    exact ⟨pa, sg, t, hlive⟩
  | freed _ hnone _ =>
    rw [hnone.held hsafe] at hheld
    cases hheld

/-- A map or an unmap of a chunk runs, and the domain stays the live one. -/
theorem chunk_safe {d : Nat} (hinv : s.DomainInv)
    (hsafe : s.DomainSafe) (hheld : s.held d = true)
    {f : Pgtable → Except Fault Pgtable}
    (hf : ∀ t, WellFormed .v1 t → ∃ t', f t = .ok t' ∧ WellFormed .v1 t') :
    ∃ s', s.onPgtable d f = some s' ∧ s'.DomainSafe ∧ s'.DomainInv := by
  obtain ⟨pa, sg, t, hlive⟩ := live_of_held hinv hsafe hheld
  obtain ⟨t', heq, hwf⟩ := hf t hlive.wellFormed
  obtain ⟨hstep, hlive'⟩ := hlive.onPgtable heq hwf
  exact ⟨_, hstep, hlive'.safe (hlive.held hsafe) hsafe.noUseAfterFree,
    .live d pa sg t' hlive', hinv.alias_eq⟩

theorem map_ok {t : Pgtable} {iova size : Nat} (paddr prot : Nat)
    (hwf : WellFormed .v1 t) (hc : Chunk .v1 iova size) :
    ∃ t', (do
        let (t, _) ← sunxiIommuMap .v1 t iova paddr size prot
        .ok t : Except Fault Pgtable) = .ok t' ∧ WellFormed .v1 t' := by
  obtain ⟨⟨t', r⟩, heq, hwf'⟩ := map_wellFormed paddr prot hwf hc
  exact ⟨t', by simp [heq, bind, Except.bind], hwf'⟩

theorem unmap_ok {t : Pgtable} {iova size : Nat} (version : Nat)
    (hwf : WellFormed .v1 t) (hc : Chunk .v1 iova size) :
    ∃ t', (do
        let (t, _) ← sunxiIommuUnmap .v1 version t iova size Gather.init
        .ok t : Except Fault Pgtable) = .ok t' ∧ WellFormed .v1 t' := by
  obtain ⟨t', heq, hunmaps⟩ := unmap_spec version Gather.init hwf hc
  exact ⟨t', by simp [heq, bind, Except.bind], hunmaps.wellFormed⟩

/-- A free of the live domain leaves no domain and no pages, and the pointer
to the domain. -/
theorem free_live {d pa sg : Nat} {t : Pgtable} (h : s.LiveAt d pa sg t)
    (flushed : Bool) :
    ∃ s', s.sunxiIommuDomainFree d flushed = some s' ∧ s'.NoneLive ∧
      s'.globalSunxiIommuDomain = some d ∧
      s'.globalIommuDomain = s.globalIommuDomain ∧
      s'.held = s.held ∧ s'.useAfterFree = s.useAfterFree := by
  obtain ⟨t', heq, hwf, -⟩ := clear_spec h.wellFormed
  obtain ⟨hclear, hlive⟩ := h.onPgtable heq hwf
  refine ⟨((((s.setPages pa (.directory t')).sunxiTlbFlush flushed).1.freePages
    (some pa)).freePages (some sg)).kfree d, ?_, ⟨?_, ?_⟩, ?_, rfl, rfl, rfl⟩
  · simp only [sunxiIommuDomainFree, h.lookup, hclear]
    rfl
  · show Function.update s.domains d none = _
    rw [h.domains, Function.update_idem, Function.update_eq_self_iff]
  · show Function.update (Function.update
      (s.setPages pa (.directory t')).pages pa none) sg none = _
    rw [hlive.pages, Function.update_comm h.pages_ne.symm,
      Function.update_idem, Function.update_idem,
      Function.update_eq_self_iff.mpr rfl, Function.update_eq_self_iff]
  · exact h.global

/-- The step of a free. -/
theorem free_safe {d : Nat} {flushed : Bool} (hinv : s.DomainInv)
    (hsafe : s.DomainSafe)
    (hstep : domainStep cfg s (.free d flushed) = some s') :
    s'.DomainSafe ∧ s'.DomainInv := by
  unfold domainStep at hstep
  dsimp only at hstep
  split_ifs at hstep with hheld
  obtain ⟨pa, sg, t, hlive⟩ := live_of_held hinv hsafe hheld
  obtain ⟨s₁, hfree, hnone, hglobal, halias, hheld', hread⟩ :=
    free_live hlive flushed
  rw [hfree] at hstep
  obtain rfl := Option.some.inj hstep
  refine ⟨NoneLive.safe ⟨hnone.domains, hnone.pages⟩ (fun c => ?_) ?_,
    .freed d ⟨hnone.domains, hnone.pages⟩ hglobal, ?_⟩
  · show Function.update s₁.held d false c = false
    by_cases hcd : c = d
    · rw [hcd, Function.update_self]
    · rw [Function.update_of_ne hcd, hheld', ← Bool.not_eq_true]
      exact fun hc => hcd ((hlive.held hsafe c).mp hc)
  · exact hread.trans hsafe.noUseAfterFree
  · exact halias.trans (hinv.alias_eq.trans (hlive.global.trans hglobal.symm))

theorem resume_none (hglobal : s.globalSunxiIommuDomain = none)
    (hw : HwAnswer) :
    sunxiIommuResume cfg s hw = ({ s with clk := s.clk + 1 }, 0) := by
  unfold sunxiIommuResume
  dsimp only
  split
  · rfl
  · rename_i c hc
    rw [hglobal] at hc
    cases hc

theorem resume_some {d : Nat} (hglobal : s.globalSunxiIommuDomain = some d)
    (hw : HwAnswer) :
    sunxiIommuResume cfg s hw
      = sunxiIommuHwInit cfg { s with clk := s.clk + 1 } d hw := by
  unfold sunxiIommuResume
  dsimp only
  split
  · rename_i hc
    rw [hglobal] at hc
    cases hc
  · rename_i c hc
    obtain rfl := Option.some.inj (hglobal.symm.trans hc)
    rfl

/-- The step of a resume. -/
theorem resume_safe {regs : IommuReg → Nat} {hw : HwAnswer}
    (hinv : s.DomainInv) (hsafe : s.DomainSafe)
    (hstep : domainStep cfg s (.resume regs hw) = some s') :
    (s'.DomainSafe ↔ s.GlobalLive) ∧ (s'.DomainSafe → s'.DomainInv) := by
  obtain rfl := Option.some.inj hstep
  cases hinv.shape with
  | fresh hnone hglobal hflag =>
    rw [resume_none (s := { s with regs }) hglobal]
    refine ⟨iff_of_true (NoneLive.safe ⟨hnone.domains, hnone.pages⟩
      (hnone.held hsafe) hsafe.noUseAfterFree) fun c hc => ?_,
      fun _ => ⟨.fresh ⟨hnone.domains, hnone.pages⟩ hglobal hflag,
        hinv.alias_eq⟩⟩
    rw [hglobal] at hc
    cases hc
  | live d pa sg t hlive =>
    rw [resume_some (s := { s with regs }) hlive.global]
    have hprog := hwInit_programmed cfg
      (s := { s with regs, clk := s.clk + 1 }) hlive.lookup hw
    have hlive' := hprog.liveAt hlive.global hlive.domains hlive.pages
      hlive.pages_ne hlive.inWindow hlive.wellFormed
    refine ⟨iff_of_true (hlive'.safe (fun c => ?_) ?_) hlive.globalLive,
      fun _ => ⟨.live d pa sg t hlive', ?_⟩⟩
    · rw [hprog.held]
      exact hlive.held hsafe c
    · exact hprog.useAfterFree.trans hsafe.noUseAfterFree
    · exact hprog.alias_eq.trans (hinv.alias_eq.trans hprog.global.symm)
  | freed d hnone hglobal =>
    rw [resume_some (s := { s with regs }) hglobal]
    have hbad : ¬ (sunxiIommuHwInit cfg
        { s with regs, clk := s.clk + 1 } d hw).1.DomainSafe := by
      intro h
      have hfreed := hwInit_freed cfg
        (s := { s with regs, clk := s.clk + 1 }) (d := d)
        (by rw [hnone.domains]) hw
      rw [h.noUseAfterFree] at hfreed
      cases hfreed
    exact ⟨iff_of_false hbad (hnone.not_globalLive hglobal),
      fun h => absurd h hbad⟩

/-- A step keeps the promise exactly when it meets the condition. -/
theorem domainStep_safe {op : DomainOp} (hinv : s.DomainInv)
    (hsafe : s.DomainSafe) (hstep : domainStep cfg s op = some s') :
    (s'.DomainSafe ↔ domainGuard cfg s op) ∧
      (s'.DomainSafe → s'.DomainInv) := by
  cases op with
  | alloc type o => exact alloc_safe hinv hsafe hstep
  | free d flushed =>
    obtain ⟨hsafe', hinv'⟩ := free_safe hinv hsafe hstep
    exact ⟨iff_of_true hsafe' trivial, fun _ => hinv'⟩
  | map d iova paddr size prot =>
    unfold domainStep at hstep
    dsimp only at hstep
    split_ifs at hstep with hheld
    obtain ⟨s₁, hmap, hsafe', hinv'⟩ := chunk_safe hinv hsafe hheld.1
      fun t hwf => map_ok paddr prot hwf hheld.2
    obtain rfl := Option.some.inj (hmap.symm.trans hstep)
    exact ⟨iff_of_true hsafe' trivial, fun _ => hinv'⟩
  | unmap d iova size =>
    unfold domainStep at hstep
    dsimp only at hstep
    split_ifs at hstep with hheld
    obtain ⟨s₁, hunmap, hsafe', hinv'⟩ := chunk_safe hinv hsafe hheld.1
      fun t hwf => unmap_ok cfg.version hwf hheld.2
    obtain rfl := Option.some.inj (hunmap.symm.trans hstep)
    exact ⟨iff_of_true hsafe' trivial, fun _ => hinv'⟩
  | suspend =>
    obtain rfl := Option.some.inj hstep
    refine ⟨iff_of_true ⟨hsafe.held_iff, hsafe.pages_owned, hsafe.ttb,
      hsafe.noUseAfterFree⟩ trivial, fun _ => ⟨?_, hinv.alias_eq⟩⟩
    cases hinv.shape with
    | fresh hnone hglobal hflag =>
      exact .fresh ⟨hnone.domains, hnone.pages⟩ hglobal hflag
    | live d pa sg t hlive =>
      exact .live d pa sg t ⟨hlive.global, hlive.domains, hlive.pages,
        hlive.pages_ne, hlive.inWindow, hlive.wellFormed, hlive.ttb⟩
    | freed d hnone hglobal =>
      exact .freed d ⟨hnone.domains, hnone.pages⟩ hglobal
  | resume regs hw => exact resume_safe hinv hsafe hstep

/-- A call that a client may make on a domain does not fault. -/
theorem domainStep_isSome {d iova size : Nat} (hinv : s.DomainInv)
    (hsafe : s.DomainSafe) (hheld : s.held d = true)
    (hc : Chunk .v1 iova size) (paddr prot : Nat) (flushed : Bool) :
    (domainStep cfg s (.map d iova paddr size prot)).isSome ∧
      (domainStep cfg s (.unmap d iova size)).isSome ∧
      (domainStep cfg s (.free d flushed)).isSome := by
  obtain ⟨pa, sg, t, hlive⟩ := live_of_held hinv hsafe hheld
  obtain ⟨s₁, hmap, -⟩ := chunk_safe hinv hsafe hheld
    fun t hwf => map_ok paddr prot hwf hc
  obtain ⟨s₂, hunmap, -⟩ := chunk_safe hinv hsafe hheld
    fun t hwf => unmap_ok cfg.version hwf hc
  obtain ⟨s₃, hfree, -⟩ := free_live hlive flushed
  refine ⟨?_, ?_, ?_⟩ <;> unfold domainStep <;> dsimp only
  · rw [if_pos ⟨hheld, hc⟩]
    exact Option.isSome_iff_exists.mpr ⟨s₁, hmap⟩
  · rw [if_pos ⟨hheld, hc⟩]
    exact Option.isSome_iff_exists.mpr ⟨s₂, hunmap⟩
  · rw [if_pos hheld, hfree]
    rfl

/-- A free of the live domain and an alloc: the alloc returns what was
freed. -/
theorem free_alloc_unsafe {type d : Nat} {o : AllocOutcome} {flushed : Bool}
    (hinv : s.DomainInv) (hsafe : s.DomainSafe) (hheld : s.held d = true)
    (htype : Supported type) :
    ¬ Always (domainStep cfg) DomainSafe [.free d flushed, .alloc type o] s := by
  intro h
  obtain ⟨pa, sg, t, hlive⟩ := live_of_held hinv hsafe hheld
  obtain ⟨s₁, hfree, hnone, hglobal, -⟩ := free_live hlive flushed
  have hstep : domainStep cfg s (.free d flushed)
      = some { s₁ with held := Function.update s₁.held d false } := by
    unfold domainStep
    dsimp only
    rw [if_pos hheld, hfree]
    rfl
  have hlast := (h.2 _ hstep).2 { s₁ with
    held := Function.update (Function.update s₁.held d false) d true } (by
      simp only [domainStep, alloc_global (s := { s₁ with
        held := Function.update s₁.held d false }) htype hglobal])
  obtain ⟨dom, hdom⟩ := (hlast.held_iff d).mp (Function.update_self _ _ _)
  have hdom' : s₁.domains d = some dom := hdom
  rw [hnone.domains] at hdom'
  cases hdom'

theorem init_inv (regs : IommuReg → Nat) : (init regs).DomainInv :=
  ⟨.fresh ⟨rfl, rfl⟩ rfl rfl, rfl⟩

theorem init_safe (regs : IommuReg → Nat) : (init regs).DomainSafe :=
  NoneLive.safe ⟨rfl, rfl⟩ (fun _ => rfl) rfl

end IommuDriver

open IommuDriver

/-- The promise holds in every state of a run exactly when no alloc and no
resume meets a pointer to a freed domain, and no new domain misses a cookie
of the driver. -/
theorem domainSafe_iff (cfg : IommuConfig) (regs : IommuReg → Nat)
    (ops : List DomainOp) :
    Always (domainStep cfg) DomainSafe ops (IommuDriver.init regs) ↔
      Guarded (domainStep cfg) (domainGuard cfg) ops
        (IommuDriver.init regs) :=
  always_iff_guarded (I := DomainInv)
    (fun _ _ _ hinv hsafe hstep => (domainStep_safe hinv hsafe hstep).1)
    (fun _ _ _ hinv hsafe hstep => (domainStep_safe hinv hsafe hstep).2)
    (init_inv regs) (init_safe regs) ops

/-- The device of `iommu_v12_sun50iw9_data`, nothing bypassed. -/
def sun50iw9Config : IommuConfig where
  version := iommuVersionV12
  tlbPrefetch := 0x0
  tlbInvalidMode := 0x1
  ptwInvalidMode := 0x0
  bypass := 0
  cookieHandleByCore := true

/-- Every allocation succeeds, and so does the hardware. -/
def allSucceed : AllocOutcome where
  domain := some 0x1000
  pgtable := some 0x44000000
  slab := []
  sgBuffer := some 0x44100000
  cookie := true
  hw := ⟨true, (1, 1), 0⟩

/-- Alloc, free, and alloc again. -/
theorem alloc_returns_freed :
    ¬ Always (domainStep sun50iw9Config) DomainSafe
      [.alloc iommuDomainDma allSucceed, .free 0x1000 true,
        .alloc iommuDomainDma allSucceed] (IommuDriver.init fun _ => 0) := by
  intro h
  have hgets : Gets (IommuDriver.init fun _ => 0) allSucceed 0x1000
      0x44000000 0x44100000 := ⟨rfl, rfl, rfl⟩
  have hdma : Supported iommuDomainDma := Or.inl rfl
  obtain ⟨hsafe, hinv⟩ := alloc_first sun50iw9Config ⟨rfl, rfl⟩ rfl rfl
    (init_safe _) hdma hgets (fun _ _ => rfl) rfl
  exact free_alloc_unsafe hinv hsafe rfl hdma (h.2 _ rfl)

end LonganPi.Iommu
