import LinuxLabs.ServiceManagerAdd
import LinuxLabs.ServiceManagerRefs

/-! Death notifications. A link names a handle and, by its cookie, an entry; it stays when the
entry is overridden. A notification is harmful when the entry has moved on to another handle
while the manager still holds the old one for somebody else. -/
namespace LinuxLabs.ServiceManager
open ByteMemory Binder EventRun LastWriter

/-- A death notification was requested for a handle with a cookie. -/
def Linked (w : World SvcState) (h cookie : UInt32) : Prop :=
  Effect.write (.requestDeathNotification h cookie) ∈ w.trace

instance (w : World SvcState) (h cookie : UInt32) : Decidable (Linked w h cookie) :=
  inferInstanceAs (Decidable (_ ∈ _))

/-- The driver may report the death of a handle with a cookie that is linked to it, as long as
the manager holds a strong reference to the handle. -/
def Deliverable (w : World SvcState) (h cookie : UInt32) : Prop :=
  Linked w h cookie ∧ released h w.trace < acquired h w.trace

/-- Entries with another handle are as before, and no other handle is released. -/
structure OnlyTouches (h : UInt32) (w w' : World SvcState) : Prop where
  kept : ∀ (i : ℕ) (si : SvcInfo), w.app.svclist[i]? = some si → si.handle ≠ h →
    w'.app.svclist[i]? = some si
  releases : ∀ g, Effect.write (.release g) ∈ written w w' → g = h

def DeathsHarmless (w : World SvcState) : Prop :=
  ∀ h cookie, Deliverable w h cookie → OnlyTouches h w (deadBinder cookie w)

/-- No entry is linked to a handle it has left for another one while a third entry has it. -/
def NoStale (w : World SvcState) : Prop :=
  ∀ h, ∀ si ∈ w.app.svclist, Linked w h si.cookie → (∃ b ∈ w.app.svclist, b.handle = h) →
    si.handle = 0 ∨ si.handle = h

/-- Registering `name` for `handle` strands no link: no other name has a handle that `name`
was registered for before and now leaves, and no other name has left `handle` for another. -/
structure SafeAdd (w : World SvcState) (name : List UInt16) (handle : UInt32) : Prop where
  leaves : ∀ si ∈ w.app.svclist, si.key = name → ∀ h, Linked w h si.cookie → h ≠ handle →
    ∀ b ∈ w.app.svclist, b.key ≠ name → b.handle ≠ h
  joins : ∀ b ∈ w.app.svclist, b.key ≠ name → Linked w handle b.cookie →
    b.handle = 0 ∨ b.handle = handle

/-- The condition on a step of a run. -/
def SafeStep (w : World SvcState) : SvcEvent → Prop
  | .transact msg _ => ∀ name handle, IsAdd msg name handle → AllocOk w.app name →
      SafeAdd w name handle
  | .death _ => True

/-- Links are on proper handles and name entries of the list. -/
structure LinksOk (w : World SvcState) : Prop where
  balanced : Balanced w
  handle : ∀ h cookie, Linked w h cookie → h ≠ 0
  entry : ∀ h cookie, Linked w h cookie → ∃ si ∈ w.app.svclist, si.cookie = cookie

lemma SvcInfo.cookie_inj {a b : SvcInfo} (h : a.cookie = b.cookie) : a.addr = b.addr := by
  simpa [SvcInfo.cookie] using h

lemma RegistryOk.cookie_inj {l : List SvcInfo} (h : RegistryOk l) {a b : SvcInfo} (ha : a ∈ l)
    (hb : b ∈ l) (he : a.cookie = b.cookie) : a = b := h.addr_inj ha hb (SvcInfo.cookie_inj he)

lemma mem_setHandle {l : List SvcInfo} {si : SvcInfo} {a v : UInt32} (h : si ∈ l) :
    (if si.addr = a then { si with handle := v } else si) ∈ setHandle l a v :=
  List.mem_map.mpr ⟨si, h, rfl⟩

lemma linked_releases {w : World SvcState} {app : SvcState} {si : SvcInfo} {h cookie : UInt32} :
    Linked ⟨app, w.trace ++ si.releases⟩ h cookie ↔ Linked w h cookie := by
  unfold Linked SvcInfo.releases
  split_ifs <;> simp

lemma linked_link {app : SvcState} {effs : List Effect} {handle c h cookie : UInt32} :
    Linked ⟨app, effs ++ linkEffects handle c⟩ h cookie ↔
      Linked ⟨app, effs⟩ h cookie ∨ h = handle ∧ cookie = c := by
  simp [Linked, linkEffects]

/-- A strong reference is held exactly while an entry has the handle. -/
lemma LinksOk.deliverable_iff {w : World SvcState} (hw : LinksOk w) {h cookie : UInt32} :
    Deliverable w h cookie ↔ Linked w h cookie ∧ ∃ b ∈ w.app.svclist, b.handle = h := by
  apply and_congr_right
  intro hl
  have htotal := hw.balanced.total h (hw.handle h cookie hl)
  have hpos : 0 < holders h w.app.svclist ↔ ∃ b ∈ w.app.svclist, b.handle = h := by
    rw [holders, List.countP_pos_iff]
    simp
  rw [← hpos]
  omega

lemma deadBinder_entry {w : World SvcState} (hok : RegistryOk w.app.svclist) {si : SvcInfo}
    (hsi : si ∈ w.app.svclist) :
    deadBinder si.cookie w =
      ⟨⟨setHandle w.app.svclist si.addr 0, w.app.mallocs⟩, w.trace ++ si.releases⟩ := by
  have haddr : si.cookie - 8 = si.addr := by simp [SvcInfo.cookie]
  rw [deadBinder_apply hok, haddr, SvcEvent.apply, svcinfoDeath_entry hok hsi]

/-- Deliveries are harmless exactly in states without stale links. -/
theorem LinksOk.harmless_iff {w : World SvcState} (hw : LinksOk w) :
    DeathsHarmless w ↔ NoStale w := by
  have hok := hw.balanced.registry
  constructor
  · intro hd h si hsi hl hb
    by_contra hn
    rw [not_or] at hn
    obtain ⟨i, hi⟩ := List.mem_iff_getElem?.mp hsi
    have hkept := (hd h si.cookie (hw.deliverable_iff.mpr ⟨hl, hb⟩)).kept i si hi hn.2
    rw [deadBinder_entry hok hsi] at hkept
    simp only [setHandle, List.getElem?_map, hi, Option.map_some, if_true, Option.some.injEq]
      at hkept
    exact hn.1 (congrArg SvcInfo.handle hkept).symm
  · intro hs h cookie hdel
    obtain ⟨hl, hb⟩ := hw.deliverable_iff.mp hdel
    obtain ⟨si, hsi, rfl⟩ := hw.entry h cookie hl
    have hcase := hs h si hsi hl hb
    rw [deadBinder_entry hok hsi]
    refine ⟨fun i b hi hne => ?_, fun g hg => ?_⟩
    · have hmem := List.mem_of_getElem? hi
      simp only [setHandle, List.getElem?_map, hi, Option.map_some, Option.some.injEq]
      by_cases he : b.addr = si.addr
      · obtain rfl := hok.addr_inj hmem hsi he
        rw [if_pos rfl, ← hcase.resolve_right hne]
      · simp [he]
    · rw [written_append rfl] at hg
      unfold SvcInfo.releases at hg
      split_ifs at hg with h0
      · simp at hg
      · simp only [List.mem_singleton, Effect.write.injEq, BinderCommand.release.injEq] at hg
        rw [hg]
        exact hcase.resolve_left h0

/-- What an accepted registration changes: the entry of the name has the handle, the others are
as before, and one link is added. -/
structure Assigns (w w' : World SvcState) (name : List UInt16) (handle : UInt32) (si : SvcInfo) :
    Prop where
  mem : si ∈ w'.app.svclist
  key : si.key = name
  value : si.handle = handle
  others : ∀ b, b.key ≠ name → (b ∈ w'.app.svclist ↔ b ∈ w.app.svclist)
  own : ∀ h, Linked w' h si.cookie ↔ Linked w h si.cookie ∨ h = handle
  old : ∀ b ∈ w.app.svclist, b.key = name ↔ b.cookie = si.cookie
  kept : ∀ b ∈ w.app.svclist, b.key ≠ name → ∀ h, Linked w' h b.cookie ↔ Linked w h b.cookie

theorem Assigns.noStale_iff {w w' : World SvcState} {name : List UInt16} {handle : UInt32}
    {si : SvcInfo} (ha : Assigns w w' name handle si) (hne : handle ≠ 0) (hw : LinksOk w)
    (hok' : RegistryOk w'.app.svclist) (hs : NoStale w) : NoStale w' ↔ SafeAdd w name handle := by
  constructor
  · intro hs'
    refine ⟨fun a hmem hkey h hl hh b hb hbkey hbh => ?_, fun b hb hbkey hl => ?_⟩
    · have hcookie : a.cookie = si.cookie := (ha.old a hmem).mp hkey
      have hl' : Linked w' h si.cookie := (ha.own h).mpr (.inl (hcookie ▸ hl))
      rcases hs' h si ha.mem hl' ⟨b, (ha.others b hbkey).mpr hb, hbh⟩ with h0 | h0
      · exact hne (ha.value ▸ h0)
      · exact hh (h0.symm.trans ha.value)
    · exact hs' handle b ((ha.others b hbkey).mpr hb) ((ha.kept b hb hbkey handle).mpr hl)
        ⟨si, ha.mem, ha.value⟩
  · intro hsafe h a hmem hl ⟨b, hb, hbh⟩
    by_cases hakey : a.key = name
    · -- the entry itself: its old links must not be live any more
      obtain rfl : a = si := hok'.key_inj hmem ha.mem (hakey.trans ha.key.symm)
      rw [ha.value]
      by_cases hh : h = handle
      · exact .inr hh.symm
      · have hold := ((ha.own h).mp hl).resolve_right hh
        obtain ⟨c, hc, hcookie⟩ := hw.entry h _ hold
        have hckey := (ha.old c hc).mpr hcookie
        have hbkey : b.key ≠ name := by
          intro he
          obtain rfl := hok'.key_inj hb hmem (he.trans hakey.symm)
          exact hh (hbh.symm.trans ha.value)
        exact absurd hbh
          (hsafe.leaves c hc hckey h (hcookie ▸ hold) hh b ((ha.others b hbkey).mp hb) hbkey)
    · have ha0 := (ha.others a hakey).mp hmem
      have hold := (ha.kept a ha0 hakey h).mp hl
      by_cases hbkey : b.key = name
      · obtain rfl := hok'.key_inj hb ha.mem (hbkey.trans ha.key.symm)
        rw [← hbh, ha.value] at hold ⊢
        exact hsafe.joins a ha0 hakey hold
      · exact hs h a ha0 hold ⟨b, (ha.others b hbkey).mp hb, hbh⟩

lemma linked_override {w : World SvcState} {app : SvcState} {si : SvcInfo}
    {handle c h cookie : UInt32} :
    Linked ⟨app, w.trace ++ si.releases ++ linkEffects handle c⟩ h cookie ↔
      Linked w h cookie ∨ h = handle ∧ cookie = c := by
  rw [linked_link, linked_releases]

theorem RegStep.linksOk {w w' : World SvcState} {obs : List RegEvent} (h : RegStep w w' obs)
    (hw : LinksOk w) : LinksOk w' := by
  have hkept (a v h cookie : UInt32) (hl : Linked w h cookie) :
      ∃ si ∈ setHandle w.app.svclist a v, si.cookie = cookie := by
    obtain ⟨si, hsi, rfl⟩ := hw.entry h cookie hl
    refine ⟨_, mem_setHandle hsi, ?_⟩
    split_ifs <;> rfl
  have hb := h.balanced hw.balanced
  cases h with
  | idle ms => exact ⟨hb, hw.handle, hw.entry⟩
  | override si mem handle ne iso =>
    refine ⟨hb, fun h cookie hl => ?_, fun h cookie hl => ?_⟩
    · rcases linked_override.mp hl with hl | ⟨rfl, -⟩
      · exact hw.handle h cookie hl
      · exact ne
    · rcases linked_override.mp hl with hl | ⟨-, rfl⟩
      · exact hkept _ _ h cookie hl
      · refine ⟨_, mem_setHandle mem, ?_⟩
        split_ifs <;> rfl
  | create si ok ne addr key ms =>
    refine ⟨hb, fun h cookie hl => ?_, fun h cookie hl => ?_⟩
    · rcases linked_link.mp hl with hl | ⟨rfl, -⟩
      · exact hw.handle h cookie hl
      · exact ne
    · rcases linked_link.mp hl with hl | ⟨-, rfl⟩
      · obtain ⟨b, hb, hc⟩ := hw.entry h cookie hl
        exact ⟨b, by simp [hb], hc⟩
      · exact ⟨si, by simp, rfl⟩
  | death si mem =>
    refine ⟨hb, fun h cookie hl => ?_, fun h cookie hl => ?_⟩
    · exact hw.handle h cookie (linked_releases.mp hl)
    · exact hkept _ _ h cookie (linked_releases.mp hl)

/-- Overriding an entry assigns the handle to its name. -/
theorem assigns_override {w : World SvcState} (hok : RegistryOk w.app.svclist) {si : SvcInfo}
    (mem : si ∈ w.app.svclist) (handle : UInt32) (ms : List UInt32) :
    Assigns w ⟨⟨setHandle w.app.svclist si.addr handle, ms⟩,
      w.trace ++ si.releases ++ linkEffects handle si.cookie⟩ si.key handle
      { si with handle := handle } := by
  have hcookie : SvcInfo.cookie { si with handle := handle } = si.cookie := rfl
  have hold : ∀ b ∈ w.app.svclist, b.key = si.key ↔ b.cookie = si.cookie := fun b hb =>
    ⟨fun he => by rw [hok.key_inj hb mem he], fun he => by rw [hok.cookie_inj hb mem he]⟩
  constructor
  case mem => simpa using mem_setHandle (a := si.addr) (v := handle) mem
  case key => rfl
  case value => rfl
  case others =>
    intro b hbkey
    rw [hok.setHandle_key mem, List.mem_map]
    constructor
    · rintro ⟨c, hc, rfl⟩
      split_ifs at hbkey ⊢ with he
      · exact absurd he hbkey
      · exact hc
    · intro hb
      exact ⟨b, hb, if_neg hbkey⟩
  case own =>
    intro h
    rw [linked_override, hcookie]
    simp
  case old => exact hold
  case kept =>
    intro b hb hbkey h
    rw [linked_override]
    exact or_iff_left fun he => hbkey ((hold b hb).mpr he.2)

theorem assigns_create {w : World SvcState} {si : SvcInfo}
    (addr : si.addr ∉ w.app.svclist.map SvcInfo.addr)
    (key : si.key ∉ w.app.svclist.map SvcInfo.key) (ms : List UInt32) :
    Assigns w ⟨⟨si :: w.app.svclist, ms⟩, w.trace ++ linkEffects si.handle si.cookie⟩ si.key
      si.handle si := by
  have hcookie : ∀ b ∈ w.app.svclist, b.cookie ≠ si.cookie := fun b hb he =>
    addr (SvcInfo.cookie_inj he ▸ List.mem_map_of_mem hb)
  have hkey : ∀ b ∈ w.app.svclist, b.key ≠ si.key := fun b hb he =>
    key (he ▸ List.mem_map_of_mem hb)
  constructor
  case mem => simp
  case key => rfl
  case value => rfl
  case others =>
    intro b hbkey
    rw [List.mem_cons]
    exact or_iff_right fun he => hbkey (he ▸ rfl)
  case own =>
    intro h
    rw [linked_link]
    simp [Linked]
  case old => exact fun b hb => iff_of_false (hkey b hb) (hcookie b hb)
  case kept =>
    intro b hb _ h
    rw [linked_link]
    exact or_iff_left fun he => hcookie b hb he.2

/-- A death clears one entry, which can only make links harmless. -/
theorem noStale_death {w : World SvcState} (hw : LinksOk w) (hs : NoStale w) (si : SvcInfo)
    (ms : List UInt32) :
    NoStale ⟨⟨setHandle w.app.svclist si.addr 0, ms⟩, w.trace ++ si.releases⟩ := by
  intro h a ha hl ⟨b, hb, hbh⟩
  rw [linked_releases] at hl
  have hh := hw.handle h _ hl
  obtain ⟨b', hb', rfl⟩ := List.mem_map.mp hb
  obtain ⟨a', ha', rfl⟩ := List.mem_map.mp ha
  by_cases hb0 : b'.addr = si.addr
  · rw [if_pos hb0] at hbh
    exact absurd hbh.symm hh
  · rw [if_neg hb0] at hbh
    by_cases ha0 : a'.addr = si.addr
    · rw [if_pos ha0]
      exact .inl rfl
    · rw [if_neg ha0] at hl ⊢
      exact hs h a' ha' hl ⟨b', hb', hbh⟩

/-- One step: a state without stale links stays so exactly if the step is safe. -/
theorem SvcEvent.noStale_iff {w : World SvcState} (hw : LinksOk w) (hs : NoStale w)
    (e : SvcEvent) : NoStale (e.apply w) ↔ SafeStep w e := by
  have hok := hw.balanced.registry
  have hstep := e.apply_step hok
  cases e with
  | death ptr =>
    refine iff_of_true ?_ trivial
    generalize hw' : SvcEvent.apply w (.death ptr) = w' at hstep
    generalize ho : SvcEvent.observe w (.death ptr) = obs at hstep
    have hnot : ∀ k v, obs ≠ [.set k v] := by
      intro k v he
      rw [← ho, SvcEvent.observe] at he
      split at he <;> simp at he
    cases hstep with
    | idle ms => exact hs
    | override si mem handle ne iso => exact absurd rfl (hnot _ _)
    | create si ok ne addr key ms => exact absurd rfl (hnot _ _)
    | death si mem => exact noStale_death hw hs si _
  | transact msg rdata =>
    have hobs := @observe_iff_isAdd msg w hok rdata
    have hsafe : SafeStep w (.transact msg rdata) ↔ ∀ name handle,
        (∃ iso, SvcEvent.observe w (.transact msg rdata) = [.set name (handle, iso)]) →
          SafeAdd w name handle := by
      simp only [SafeStep, hobs, and_imp]
    rw [hsafe]
    generalize SvcEvent.apply w (.transact msg rdata) = w' at hstep
    generalize SvcEvent.observe w (.transact msg rdata) = obs at hstep
    have hok' := hstep.registryOk hok
    cases hstep with
    | idle ms => exact iff_of_true hs (by simp)
    | override si mem handle ne iso =>
      rw [(assigns_override hok mem handle _).noStale_iff ne hw hok' hs]
      simp
    | create si ok ne addr key ms =>
      rw [(assigns_create addr key ms).noStale_iff ne hw hok' hs]
      simp
    | death si mem => exact iff_of_true (noStale_death hw hs si _) (by simp)

lemma linksOk_start (mallocs : List UInt32) : LinksOk (start mallocs) :=
  ⟨⟨registryOk_nil, fun _ _ => rfl, fun h _ p hp => by simp [List.prefix_nil.mp hp, released]⟩,
    by simp [Linked, start], by simp [Linked, start]⟩

/-- In every state of a run, every death notification the driver may deliver touches only the
service that died, exactly when every registration of the run is safe. -/
theorem deathsHarmless_iff (mallocs : List UInt32) (es : List SvcEvent) :
    (∀ pre, pre <+: es → DeathsHarmless (svcMachine.run (start mallocs) pre)) ↔
      ∀ pre e, pre ++ [e] <+: es → SafeStep (svcMachine.run (start mallocs) pre) e := by
  have hstart : LinksOk (start mallocs) ∧ NoStale (start mallocs) :=
    ⟨linksOk_start mallocs, by simp [NoStale, start]⟩
  have hlinks (w : World SvcState) (e : SvcEvent) (hw : LinksOk w) : LinksOk (e.apply w) :=
    (e.apply_step hw.balanced.registry).linksOk hw
  have hiff (w : World SvcState) (e : SvcEvent) (hw : LinksOk w ∧ NoStale w) :
      DeathsHarmless (svcMachine.apply w e) ↔ SafeStep w e :=
    (hlinks w e hw.1).harmless_iff.trans (e.noStale_iff hw.1 hw.2)
  have hkeep (w : World SvcState) (e : SvcEvent) (hw : LinksOk w ∧ NoStale w)
      (hsafe : SafeStep w e) : LinksOk (e.apply w) ∧ NoStale (e.apply w) :=
    ⟨hlinks w e hw.1, (e.noStale_iff hw.1 hw.2).mpr hsafe⟩
  rw [svcMachine.forall_prefix_iff, ← svcMachine.along_iff,
    svcMachine.along_congr (fun w e _ hw => hiff w e hw) (fun w e _ hw => hkeep w e hw) hstart]
  exact and_iff_right (hstart.1.harmless_iff.mpr hstart.2)

/-- Names `hi` and `ho` share handle 1, then `hi` moves to handle 2. The death of handle 1,
reported with the cookie of `hi`, removes the new service and releases its handle. -/
theorem alias_death_hits_successor :
    let w := svcMachine.run (start [64, 128])
      [.transact (addMessage [104, 105] 1 0) fun _ => 0,
        .transact (addMessage [104, 111] 1 0) fun _ => 0,
        .transact (addMessage [104, 105] 2 0) fun _ => 0]
    Deliverable w 1 72 ∧ Effect.write (.release 2) ∈ written w (deadBinder 72 w) ∧
      ¬ DeathsHarmless w := by
  intro w
  have hdel : Deliverable w 1 72 := ⟨by decide +kernel, by decide +kernel⟩
  have hrel : Effect.write (.release 2) ∈ written w (deadBinder 72 w) := by decide +kernel
  refine ⟨hdel, hrel, fun h => ?_⟩
  exact absurd ((h 1 72 hdel).releases 2 hrel) (by decide)

end LinuxLabs.ServiceManager
