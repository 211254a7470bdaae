import LightrCri.Fake.Stages

/-!
# The steps of calls

What a step of a task does to the namespaces (`Stepped`) and to the tasks (`Goes`), and that this is
what a call does (`Calling.step`): its thread stays where it is, and what it starts is in its first
stage.
-/

namespace LightrCri.Fake.Namespaces

open Backend Foundations Function

/-! ## Steps -/

/-- What a step of the task `i` does to the host. -/
structure Stepped (leak : Prop) (ls : List Label) (τ : Tag) (i next : ℕ) (forks : Bool)
    (w w' : World) : Prop where
  elsewhere : Elsewhere leak τ.isContainer i next forks w w'
  alone : ∀ (n : ℕ) (a : Space String), w'.hostnames[n]? = some a → a.peers = none
  pins : ∀ p ∈ w'.pins, w'.nets[p.2]? = some (some p.1)
  written : ∀ sb text, w'.resolvConfs sb = some text → Written ls sb text
  exist : (w'.ns i).Exists w'
  born : forks → w'.ns next = {} ∧ w'.child next = none ∧ w'.report next = none
  moved : τ.isContainer →
    ((w'.ns i).uts = (w.ns i).uts ∨ (w'.ns i).uts = w.hostnames.length) ∧
      ((w'.ns i).mnt = (w.ns i).mnt ∨ (w'.ns i).mnt = w.mounts.length)

/-- A step of the task `i`, which has the tag `τ` and the frames `k` below the one it executes. -/
structure Goes (leak : Prop) (h : Host) (ls : List Label) (tags : ℕ → Option Tag) (i next : ℕ)
    (τ : Tag) (r : Option Result) (k : List Frame) (w w' : World) (out : Out) : Prop where
  stepped : Stepped leak ls τ i next (!out.children.isEmpty) w w'
  own : Holds leak h ls tags w' i (Task.resume ⟨τ, [], r⟩ k out)
  kids : ∀ u ∈ out.children, Holds leak h ls tags w' next u

section Steps

variable {leak : Prop} {h : Host} {ls : List Label} {tags tags' : ℕ → Option Tag} {i next : ℕ}
  {τ : Tag} {r : Option Result} {k : List Frame} {w w' : World} {out : Out} {o : Oracle}

theorem Calm.stepped (hcalm : Calm w w') (hroot : Rooted leak h ls w) (l : Label) :
    Stepped leak (ls ++ [l]) τ i next false w w' where
  elsewhere := hcalm.elsewhere
  alone := fun n a ha => hroot.alone n a (by rw [← hcalm.hostnames, ha])
  pins := fun p hp => by rw [hcalm.nets]; exact hroot.pins p (hcalm.pins p hp)
  written := fun sb text hfile => by
    rw [hcalm.resolvConfs] at hfile
    exact (hroot.written sb text hfile).mono l
  exist := by
    have hexist := hroot.exist i
    unfold Nsproxy.Exists at hexist ⊢
    rwa [hcalm.ns, hcalm.hostnames, hcalm.mounts, hcalm.nets]
  born := fun h => absurd h (by decide)
  moved := fun _ => by
    rw [hcalm.ns]
    exact ⟨.inl rfl, .inl rfl⟩

theorem Calm.refl (w : World) : Calm w w :=
  ⟨rfl, rfl, rfl, rfl, rfl, rfl, rfl, fun _ hp => hp⟩

theorem Calm.pins_sub {pins : List (String × ℕ)} (h : ∀ p ∈ pins, p ∈ w.pins) :
    Calm w { w with pins := pins } :=
  ⟨rfl, rfl, rfl, rfl, rfl, rfl, rfl, h⟩

theorem Calm.files (files : List String) : Calm w { w with netnsFiles := files } :=
  ⟨rfl, rfl, rfl, rfl, rfl, rfl, rfl, fun _ hp => hp⟩

/-! ### Calls -/

section

variable {c : Call} {f : Frame}

/-- A call goes on in the same thread. -/
theorem Calling.goesOn {fs : List Frame} (hcall : Calling ls tags w i c (f :: k) r) (l : Label)
    (hst : Stepped leak (ls ++ [l]) (.call c) i next false w w') (hns : w'.ns = w.ns)
    (hreport : w'.report = w.report) (hchild : w'.child = w.child)
    (htags : ∀ q τ, tags q = some τ → tags' q = some τ)
    (hborn : ∀ q τ, tags q = some τ → q < next)
    (hfs : ∀ g ∈ fs, Pending (ls ++ [l]) w' i c g) :
    Goes leak h (ls ++ [l]) tags' i next (.call c) r k w w' (.next fs) where
  stepped := hst
  own := by
    refine ⟨by rw [hns, hcall.ns], ?_, List.mem_append_left _ hcall.invoked, fun g hg => ?_,
      fun p hp => ?_, fun v hv => (hcall.result v hv).other hst.elsewhere htags hborn⟩
    · rw [hreport]
      exact .inl (hcall.report.resolve_right (List.cons_ne_nil _ _))
    · rcases List.mem_append.mp hg with hg | hg
      · exact hfs g hg
      · exact (hcall.frames g (List.mem_cons_of_mem _ hg)).other hst.elsewhere l
    · rw [hchild] at hp
      obtain ⟨τ, hτ, hchild⟩ := hcall.child p hp
      exact ⟨τ, htags p τ hτ, hchild⟩
  kids := fun u hu => absurd hu List.not_mem_nil

theorem Calling.calm {fs : List Frame} (hroot : Rooted leak h ls w)
    (hcall : Calling ls tags w i c (f :: k) r) (l : Label)
    (htags : ∀ q τ, tags q = some τ → tags' q = some τ)
    (hborn : ∀ q τ, tags q = some τ → q < next) (hcalm : Calm w w')
    (hfs : ∀ g ∈ fs, Pending (ls ++ [l]) w' i c g) :
    Goes leak h (ls ++ [l]) tags' i next (.call c) r k w w' (.next fs) :=
  hcall.goesOn l (hcalm.stepped hroot l) hcalm.ns hcalm.report hcalm.child htags hborn hfs

/-- A call returns. -/
theorem Calling.returns {res : Result} (hroot : Rooted leak h ls w)
    (hcall : Calling ls tags w i c (f :: k) r)
    (htags : ∀ q τ, tags q = some τ → tags' q = some τ) (l : Label)
    (hcalm : Calm w w') (hres : ∀ v, res = .ok v → Returned tags' w' i c v) :
    Goes leak h (ls ++ [l]) tags' i next (.call c) r k w w' (.halt res) where
  stepped := hcalm.stepped hroot l
  own := by
    refine ⟨by rw [hcalm.ns, hcall.ns], .inr rfl, List.mem_append_left _ hcall.invoked,
      fun g hg => absurd hg List.not_mem_nil, fun p hp => ?_,
      fun v hv => hres v (Option.some.inj hv)⟩
    rw [hcalm.child] at hp
    obtain ⟨τ, hτ, hchild⟩ := hcall.child p hp
    exact ⟨τ, htags p τ hτ, hchild⟩
  kids := fun u hu => absurd hu List.not_mem_nil

/-- A call starts a child or a thread. -/
theorem Calling.forks {child : List Frame} {pids : List (ℕ × ℕ)} (hroot : Rooted leak h ls w)
    (hcall : Calling ls tags w i c (f :: k) r) (hne : i ≠ next) (hfresh : w.child next = none)
    (htags : ∀ q τ, tags q = some τ → tags' q = some τ)
    (hborn : ∀ q τ, tags q = some τ → q < next) (l : Label) (hkid : tags' next = some τ)
    (hchild : Child i c τ)
    (hholds : Holds leak h (ls ++ [l]) tags' { w.fork i next with pids := pids } next
      ⟨τ, child, none⟩) :
    Goes leak h (ls ++ [l]) tags' i next (.call c) r k w { w.fork i next with pids := pids }
      (.fork τ child) := by
  have hns : (w.fork i next).ns i = {} := by simp [World.fork, World.setNs, hne, hcall.ns]
  have hnew : (w.fork i next).ns next = {} := by simp [World.fork, World.setNs, hcall.ns]
  have hel : Elsewhere leak True i next true w { w.fork i next with pids := pids } :=
    .fork pids hne
  refine ⟨⟨.fork pids hne, hroot.alone, hroot.pins, fun sb text hfile =>
    (hroot.written sb text hfile).mono l, ?_, fun _ => ⟨hnew, ?_, ?_⟩,
      fun hcon => absurd hcon Bool.false_ne_true⟩,
    ⟨hns, .inl ?_, List.mem_append_left _ hcall.invoked, fun g hg =>
      (hcall.frames g (List.mem_cons_of_mem _ hg)).other hel l, fun p hp => ?_,
      fun v hv => (hcall.result v hv).other hel htags hborn⟩, fun u hu => ?_⟩
  · have hexist := hroot.exist i
    rw [hcall.ns] at hexist
    show ((w.fork i next).ns i).Exists _
    rw [hns]
    exact hexist
  · simpa [World.fork, World.setNs, Ne.symm hne] using hfresh
  · simp [World.fork]
  · have hreport := hcall.report.resolve_right (List.cons_ne_nil _ _)
    simpa [World.fork, World.setNs, hne] using hreport
  · have hp' : next = p := by simpa [World.fork] using hp
    exact ⟨τ, hp' ▸ hkid, hchild⟩
  · obtain rfl := List.mem_singleton.mp hu
    exact hholds

/-- A call writes the `resolv.conf` of its sandbox. -/
theorem Calling.writes {id : ContainerId} {sb : SandboxId} {info : SandboxInfo} {dns : DnsConfig}
    {failed text : String} (hroot : Rooted leak h ls w)
    (hcall : Calling ls tags w i (.startContainer id sb info) (f :: k) r)
    (hdns : info.dns = some dns) (htags : ∀ q τ, tags q = some τ → tags' q = some τ)
    (hborn : ∀ q τ, tags q = some τ → q < next) (l : Label) :
    Goes leak h (ls ++ [l]) tags' i next (.call (.startContainer id sb info)) r k w
      { w with resolvConfs := update w.resolvConfs sb (some (resolvConf dns)) }
      (.next [.openNet text info.netnsPath
        ⟨.container i id sb info, installContainerPreExec info.hostname (some sb), failed⟩]) := by
  refine hcall.goesOn l ⟨.of_spaces rfl rfl (fun n x hx => hx) (fun sb' hsb' => ?_) (fun _ _ _ => rfl)
    (fun _ _ _ => rfl) (fun _ _ => rfl) (fun _ hk => hk), hroot.alone, hroot.pins,
    fun sb' text' htext => ?_, hroot.exist i, fun hf => absurd hf Bool.false_ne_true,
    fun hcon => absurd hcon Bool.false_ne_true⟩ rfl rfl rfl htags hborn fun g hg => ?_
  · by_cases hsb : sb' = sb
    · simp [hsb]
    · simpa [hsb] using hsb'
  · by_cases hsb : sb' = sb
    · subst hsb
      have htext' : resolvConf dns = text' := by simpa using htext
      exact ⟨id, info, dns, List.mem_append_left _ hcall.invoked, hdns, htext'.symm⟩
    · exact (hroot.written sb' text' (by simpa [hsb] using htext)).mono l
  · obtain rfl := List.mem_singleton.mp hg
    exact .openNet _ _ _ _ (.container id sb info (some sb) (.inr ⟨rfl, by simp⟩))

/-- A call ends and leaves a message. -/
theorem Calling.tells {res : Result} (hroot : Rooted leak h ls w)
    (hcall : Calling ls tags w i c (f :: k) r)
    (htags : ∀ q τ, tags q = some τ → tags' q = some τ) (l : Label) (x : Except String ℕ)
    (pids : List (ℕ × ℕ))
    (hres : ∀ v, res = .ok v → Returned tags' { w.tell i x with pids := pids } i c v) :
    Goes leak h (ls ++ [l]) tags' i next (.call c) r k w { w.tell i x with pids := pids }
      (.halt res) where
  stepped := by
    have hreport := hcall.report.resolve_right (List.cons_ne_nil _ _)
    exact ⟨.self hreport rfl rfl (fun n x hx => hx) rfl rfl (fun _ _ => rfl)
      (fun q hq => by simp [World.tell, hq]), hroot.alone, hroot.pins,
      fun sb text hfile => (hroot.written sb text hfile).mono l, hroot.exist i,
      fun hf => absurd hf Bool.false_ne_true, fun hcon => absurd hcon Bool.false_ne_true⟩
  own := by
    refine ⟨hcall.ns, .inr rfl, List.mem_append_left _ hcall.invoked,
      fun g hg => absurd hg List.not_mem_nil, fun p hp => ?_,
      fun v hv => hres v (Option.some.inj hv)⟩
    obtain ⟨τ, hτ, hchild⟩ := hcall.child p hp
    exact ⟨τ, htags p τ hτ, hchild⟩
  kids := fun u hu => absurd hu List.not_mem_nil

/-- What a child or a thread has told its caller. -/
def Spoken (w : World) (q n : ℕ) : Tag → Prop
  | .container .. | .exec .. => n = q
  | .dialer path => w.nets[n]? = some (some path)
  | _ => True

theorem NetOps.stage {path : Option String} {ops : List Op} {q : ℕ} (hnet : NetOps w path ops)
    (hnets : w'.nets = w.nets) (hzero : (w'.ns q).net = 0) : NetStage w' q path ops := by
  cases hnet with
  | none => exact .host hzero
  | some path net hpath => exact .ahead path net hzero fun n hn => by rw [hnets]; exact hpath n hn

theorem Made.spawns {path : Option String} {ops : List Op} (hmade : Made ls w i c τ ops path) :
    c.spawns := by
  cases hmade <;> rfl

/-- A child starts where its parent is. -/
theorem Made.child {path : Option String} {ops net : List Op} {pids : List (ℕ × ℕ)}
    (hmade : Made ls w i c τ ops path) (hnet : NetOps w path net) (hroot : Rooted leak h ls w)
    (hlt : i < next) (hns : w.ns i = {}) (l : Label) : Child i c τ ∧
      Holds leak h (ls ++ [l]) tags' { w.fork i next with pids := pids } next
        ⟨τ, (ops ++ net ++ [Op.execve]).map .op, none⟩ := by
  have hnew : (w.fork i next).ns next = {} := by simp [World.fork, World.setNs, hns]
  have hnone : (w.fork i next).report next = none := by simp [World.fork]
  have hstage : NetStage { w.fork i next with pids := pids } next path net :=
    hnet.stage rfl (by show ((w.fork i next).ns next).net = 0; rw [hnew])
  cases hmade with
  | container id sb info src hsrc =>
    refine ⟨.container id sb info, .before _ _ _ hnone ?_ ?_ hstage⟩
    · by_cases hempty : info.hostname = ""
      · rw [if_pos hempty]
        refine .kept ?_ (.inl hempty)
        show w.hostnames[((w.fork i next).ns next).uts]? = _
        rw [hnew]
        exact hroot.hostname
      · rw [if_neg hempty]
        refine .ahead hempty ?_
        show ((w.fork i next).ns next).uts = 0
        rw [hnew]
    · rcases hsrc with ⟨rfl, hwhy⟩ | ⟨rfl, hfile⟩
      · refine .kept (hwhy.imp_right fun hf => .inl (hf.mono l)) ?_
        refine hroot.resolvConf.imp_right fun hmnt => ⟨h.peers, ?_⟩
        show w.mounts[((w.fork i next).ns next).mnt]? = _
        rw [hnew]
        exact hmnt
      · refine .ahead hfile ?_
        show ((w.fork i next).ns next).mnt = 0
        rw [hnew]
  | exec v id pid path mnt uts hmnt huts =>
    exact ⟨.exec v id pid path mnt uts, hlt, .mnt net hnone hmnt huts hstage⟩

theorem World.heard_eq_some {q : ℕ} {x : Except String ℕ} (hx : w.heard i = some (q, x)) :
    w.child i = some q ∧ w.report q = some x := by
  obtain ⟨q', hchild, hmap⟩ := Option.bind_eq_some_iff.mp hx
  obtain ⟨y, hreport, heq⟩ := Option.map_eq_some_iff.mp hmap
  obtain ⟨rfl, rfl⟩ := Prod.mk.inj heq
  exact ⟨hchild, hreport⟩

theorem pinned_mem {path : String} {n : ℕ} (hpin : w.pinned path = some n) :
    (path, n) ∈ w.pins := by
  obtain ⟨p, hfind, rfl⟩ := Option.map_eq_some_iff.mp hpin
  have hpath : p.1 = path := by simpa using List.find?_some hfind
  rw [← hpath]
  exact List.mem_of_find?_eq_some hfind

/-- **What a call does.** -/
theorem Calling.step (hroot : Rooted leak h ls w) (hcall : Calling ls tags w i c (f :: k) r)
    (hlt : i < next) (hfresh : w.child next = none)
    (hspoken : ∀ q n τ, w.report q = some (.ok n) → tags q = some τ → Spoken w q n τ)
    (htags : ∀ q τ, tags q = some τ → tags' q = some τ)
    (hborn : ∀ q τ, tags q = some τ → q < next)
    (hkids : ∀ u ∈ out.children, tags' next = some u.tag)
    (hex : exec i next o f w = some (w', out)) :
    Goes leak h (ls ++ [Label.step i o]) tags' i next (.call c) r k w w' out := by
  have error : ∀ e, Goes leak h (ls ++ [Label.step i o]) tags' i next (.call c) r k w w
      (.halt (.error e)) := fun e =>
    hcall.returns hroot htags _ (.refl w) fun v hv => by cases hv
  have hne : i ≠ next := Nat.ne_of_lt hlt
  have hsame : Elsewhere leak True i next false w w := (Calm.refl w).elsewhere
  have hpend := hcall.frames f List.mem_cons_self
  cases hpend with
  | write id sb info =>
    simp only [exec] at hex
    split at hex
    · rename_i dns hdns hfault
      obtain ⟨rfl, rfl⟩ := Prod.mk.inj (Option.some.inj hex)
      exact hcall.writes hroot hdns htags hborn _
    · rename_i hother
      obtain ⟨rfl, rfl⟩ := Prod.mk.inj (Option.some.inj hex)
      refine hcall.calm hroot _ htags hborn (.refl w) fun g hg => ?_
      obtain rfl := List.mem_singleton.mp hg
      refine .openNet _ _ _ _ (.container id sb info none (.inl ⟨rfl, ?_⟩))
      cases hdns : info.dns with
      | none => exact .inl rfl
      | some dns => exact .inr (failed_step fun hfault => hother dns hdns hfault)
  | openMnt v id pid path =>
    simp only [exec] at hex
    split at hex
    · obtain ⟨rfl, rfl⟩ := Prod.mk.inj (Option.some.inj hex)
      exact error _
    · split at hex
      · rename_i q hfault hq
        obtain ⟨rfl, rfl⟩ := Prod.mk.inj (Option.some.inj hex)
        refine hcall.calm hroot _ htags hborn (.refl w) fun g hg => ?_
        obtain rfl := List.mem_singleton.mp hg
        exact .openUts v id pid path _ (hroot.exist q).2.1
      · obtain ⟨rfl, rfl⟩ := Prod.mk.inj (Option.some.inj hex)
        exact error _
  | openUts v id pid path mnt hmnt =>
    simp only [exec] at hex
    split at hex
    · rename_i q hfault hq
      obtain ⟨rfl, rfl⟩ := Prod.mk.inj (Option.some.inj hex)
      refine hcall.calm hroot _ htags hborn (.refl w) fun g hg => ?_
      obtain rfl := List.mem_singleton.mp hg
      exact .openNet _ _ _ _ (.exec v id pid path mnt _ hmnt (hroot.exist q).1)
    · obtain ⟨rfl, rfl⟩ := Prod.mk.inj (Option.some.inj hex)
      exact error _
  | openNet c failed path cmd hmade =>
    have hspawns := hmade.spawns
    have hmade' := hmade.other hsame (.step i o)
    cases path with
    | none =>
      obtain ⟨rfl, rfl⟩ := Prod.mk.inj (Option.some.inj hex)
      refine hcall.calm hroot _ htags hborn (.refl w) fun g hg => ?_
      rcases List.mem_pair.mp hg with rfl | rfl
      · exact .spawn _ none _ [] cmd hmade' .none (List.append_nil _).symm
      · exact .spawned _ _ hspawns
    | some path =>
      simp only [exec] at hex
      split at hex
      · obtain ⟨rfl, rfl⟩ := Prod.mk.inj (Option.some.inj hex)
        exact error _
      · split at hex
        · obtain ⟨rfl, rfl⟩ := Prod.mk.inj (Option.some.inj hex)
          refine hcall.calm hroot _ htags hborn (.refl w) fun g hg => ?_
          rcases List.mem_pair.mp hg with rfl | rfl
          · refine .spawn _ (some path) _ [.setnsNet (w.pinned path)] _ hmade' ?_ rfl
            exact .some path _ fun n hn => hroot.pins _ (pinned_mem hn)
          · exact .spawned _ _ hspawns
        · obtain ⟨rfl, rfl⟩ := Prod.mk.inj (Option.some.inj hex)
          exact error _
  | spawn c path ops net cmd hmade hnet hops =>
    simp only [exec] at hex
    split at hex
    · obtain ⟨rfl, rfl⟩ := Prod.mk.inj (Option.some.inj hex)
      exact error _
    · split at hex
      · obtain ⟨rfl, rfl⟩ := Prod.mk.inj (Option.some.inj hex)
        obtain ⟨hchild, hholds⟩ := hmade.child hnet hroot hlt hcall.ns (.step i o)
        exact hcall.forks hroot hne hfresh htags hborn _ (hkids _ List.mem_cons_self) hchild
          (by rw [hops]; exact hholds)
      · cases hex
  | spawned c failed hspawns =>
    simp only [exec] at hex
    split at hex
    · cases hex
    · rename_i q n hheard
      obtain ⟨rfl, rfl⟩ := Prod.mk.inj (Option.some.inj hex)
      obtain ⟨hq, hreport⟩ := World.heard_eq_some hheard
      obtain ⟨τ, hτ, hchild⟩ := hcall.child q hq
      refine hcall.returns hroot htags _ (.refl w) fun v hv => ?_
      obtain rfl := Except.ok.inj hv
      refine .running c τ q hchild (htags q τ hτ) ?_
      have hsaid := hspoken q n τ hreport hτ
      obtain rfl : n = q := by
        cases hchild with
        | container id sb info => exact hsaid
        | exec v id pid path mnt uts => exact hsaid
        | pinner name => cases hspawns
        | dialer path => cases hspawns
      exact hreport
    · obtain ⟨rfl, rfl⟩ := Prod.mk.inj (Option.some.inj hex)
      exact error _
  | touch name =>
    simp only [exec] at hex
    split at hex
    · obtain ⟨rfl, rfl⟩ := Prod.mk.inj (Option.some.inj hex)
      exact hcall.calm hroot _ htags hborn (.files _) fun g hg => absurd hg List.not_mem_nil
    · obtain ⟨rfl, rfl⟩ := Prod.mk.inj (Option.some.inj hex)
      exact error _
  | createThread name =>
    obtain ⟨rfl, rfl⟩ := Prod.mk.inj (Option.some.inj hex)
    exact hcall.forks hroot hne hfresh htags hborn _ (hkids _ List.mem_cons_self) (.pinner name)
      (.unshare (by simp [World.fork]))
  | created name =>
    simp only [exec] at hex
    split at hex
    · cases hex
    · obtain ⟨rfl, rfl⟩ := Prod.mk.inj (Option.some.inj hex)
      refine hcall.returns hroot htags _ (.refl w) fun v hv => ?_
      obtain rfl := Except.ok.inj hv
      exact .path _ _
    · obtain ⟨rfl, rfl⟩ := Prod.mk.inj (Option.some.inj hex)
      exact error _
  | dialThread path =>
    obtain ⟨rfl, rfl⟩ := Prod.mk.inj (Option.some.inj hex)
    exact hcall.forks hroot hne hfresh htags hborn _ (hkids _ List.mem_cons_self) (.dialer path)
      (.enter (by simp [World.fork]))
  | dialed path =>
    simp only [exec] at hex
    split at hex
    · cases hex
    · rename_i q n hheard
      obtain ⟨rfl, rfl⟩ := Prod.mk.inj (Option.some.inj hex)
      obtain ⟨hq, hreport⟩ := World.heard_eq_some hheard
      obtain ⟨τ, hτ, hchild⟩ := hcall.child q hq
      refine hcall.returns hroot htags _ (.refl w) fun v hv => ?_
      obtain rfl := Except.ok.inj hv
      cases hchild with
      | dialer path => exact .connected path n (hspoken q n _ hreport hτ)
    · obtain ⟨rfl, rfl⟩ := Prod.mk.inj (Option.some.inj hex)
      exact error _
  | connect =>
    simp only [exec] at hex
    split at hex
    · obtain ⟨rfl, rfl⟩ := Prod.mk.inj (Option.some.inj hex)
      refine hcall.tells hroot htags _ _ w.pids fun v hv => ?_
      obtain rfl := Except.ok.inj hv
      rw [hcall.ns]
      exact .direct
    · obtain ⟨rfl, rfl⟩ := Prod.mk.inj (Option.some.inj hex)
      exact hcall.tells hroot htags _ _ _ fun v hv => by cases hv
  | umount path =>
    simp only [exec] at hex
    split at hex
    · obtain ⟨rfl, rfl⟩ := Prod.mk.inj (Option.some.inj hex)
      exact hcall.calm hroot _ htags hborn (.pins_sub fun p hp => List.mem_of_mem_eraseP hp)
        fun g hg => absurd hg List.not_mem_nil
    · obtain ⟨rfl, rfl⟩ := Prod.mk.inj (Option.some.inj hex)
      exact error _
    · obtain ⟨rfl, rfl⟩ := Prod.mk.inj (Option.some.inj hex)
      exact error _
  | unlink path =>
    simp only [exec] at hex
    split at hex
    · split at hex
      · obtain ⟨rfl, rfl⟩ := Prod.mk.inj (Option.some.inj hex)
        refine hcall.returns hroot htags _ (.files _) fun v hv => ?_
        obtain rfl := Except.ok.inj hv
        exact .unit _
      · cases hex
    · obtain ⟨rfl, rfl⟩ := Prod.mk.inj (Option.some.inj hex)
      exact error _
  | readDir =>
    simp only [exec] at hex
    split at hex
    · obtain ⟨rfl, rfl⟩ := Prod.mk.inj (Option.some.inj hex)
      refine hcall.calm hroot _ htags hborn (.refl w) fun g hg => ?_
      obtain rfl := List.mem_singleton.mp hg
      exact .sweepOne _ _
    · obtain ⟨rfl, rfl⟩ := Prod.mk.inj (Option.some.inj hex)
      exact error _
  | sweepOne paths n =>
    cases paths with
    | nil =>
      obtain ⟨rfl, rfl⟩ := Prod.mk.inj (Option.some.inj hex)
      refine hcall.returns hroot htags _ (.refl w) fun v hv => ?_
      obtain rfl := Except.ok.inj hv
      exact .removed _ _
    | cons path paths =>
      simp only [exec] at hex
      split at hex
      · obtain ⟨rfl, rfl⟩ := Prod.mk.inj (Option.some.inj hex)
        refine hcall.calm hroot _ htags hborn (.pins_sub fun p hp => List.mem_of_mem_eraseP hp)
          fun g hg => ?_
        obtain rfl := List.mem_singleton.mp hg
        exact .unlinkSwept _ _ _
      · obtain ⟨rfl, rfl⟩ := Prod.mk.inj (Option.some.inj hex)
        refine hcall.calm hroot _ htags hborn (.refl w) fun g hg => ?_
        obtain rfl := List.mem_singleton.mp hg
        exact .sweepOne _ _
  | unlinkSwept path paths n =>
    simp only [exec] at hex
    split at hex
    · split at hex
      · obtain ⟨rfl, rfl⟩ := Prod.mk.inj (Option.some.inj hex)
        refine hcall.calm hroot _ htags hborn (.files _) fun g hg => ?_
        obtain rfl := List.mem_singleton.mp hg
        exact .sweepOne _ _
      · cases hex
    · obtain ⟨rfl, rfl⟩ := Prod.mk.inj (Option.some.inj hex)
      refine hcall.calm hroot _ htags hborn (.refl w) fun g hg => ?_
      obtain rfl := List.mem_singleton.mp hg
      exact .sweepOne _ _

end

end Steps

end LightrCri.Fake.Namespaces
