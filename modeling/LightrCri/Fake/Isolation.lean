import LightrCri.Fake.Calls

/-!
# The isolation of containers

Whatever the calls do, whatever fails in them and whatever runs in between, the host keeps its name,
and the threads of the listener stay in the namespaces of the host (`containers_named`,
`networks_joined`). A container has the name that was asked for and shares it with no other; it is
in the network namespace of its sandbox, as is an exec and a forwarded connection, or it does not
run. Its `resolv.conf` is that of its sandbox and is mounted nowhere else, if the private remount
succeeds (`resolv_confs_private`): without it the mount reaches the host (`host_overmounted`).
-/

namespace LightrCri.Fake.Namespaces

open Backend Foundations Function

/-! ## Children and threads -/

section Steps

variable {leak : Prop} {h : Host} {ls : List Label} {tags tags' : ℕ → Option Tag} {i next : ℕ}
  {τ : Tag} {r : Option Result} {k : List Frame} {w w' : World} {out : Out} {o : Oracle}

/-- A child or a thread that moves to another namespace or says something. -/
theorem Stepped.self {l : Label} (hroot : Rooted leak h ls w) (hreport : w.report i = none)
    (hhost : w'.hostnames = w.hostnames) (hmnt : w'.mounts = w.mounts) (hnets : w'.nets = w.nets)
    (hpins : w'.pins = w.pins) (hresolv : w'.resolvConfs = w.resolvConfs)
    (hchild : w'.child = w.child) (hns : ∀ q, q ≠ i → w'.ns q = w.ns q)
    (hothers : ∀ q, q ≠ i → w'.report q = w.report q) (hexist : (w'.ns i).Exists w)
    (hmoved : τ.isContainer → (w'.ns i).uts = (w.ns i).uts ∧ (w'.ns i).mnt = (w.ns i).mnt) :
    Stepped leak (ls ++ [l]) τ i next false w w' where
  elsewhere := .self hreport hhost hmnt (fun n x hx => by rw [hnets, hx]) hresolv hchild hns hothers
  alone := fun n a ha => hroot.alone n a (by rw [← hhost, ha])
  pins := fun p hp => by rw [hnets]; exact hroot.pins p (hpins ▸ hp)
  written := fun sb text hfile => by
    rw [hresolv] at hfile
    exact (hroot.written sb text hfile).mono l
  exist := by
    unfold Nsproxy.Exists at hexist ⊢
    rwa [hhost, hmnt, hnets]
  born := fun hf => absurd hf Bool.false_ne_true
  moved := fun hcon => ⟨.inl (hmoved hcon).1, .inl (hmoved hcon).2⟩

theorem Stepped.fail (hroot : Rooted leak h ls w) (hreport : w.report i = none) (e : String)
    (l : Label) : Stepped leak (ls ++ [l]) τ i next false w (fail i w e).1 := by
  refine .self hroot hreport rfl rfl rfl rfl rfl rfl (fun _ _ => rfl) (fun q hq => ?_)
    (hroot.exist i) fun _ => ⟨rfl, rfl⟩
  simp [Namespaces.fail, World.tell, World.exit, hq]

theorem report_fail (w : World) (e : String) : (fail i w e).1.report i = some (.error e) := by
  simp [fail, World.tell, World.exit]

/-- A child or a thread fails. -/
theorem Goes.fails (hroot : Rooted leak h ls w) (hnone : w.report i = none)
    (hcall : ∀ c, τ ≠ .call c) (hexec : ∀ j pid path mnt uts, τ = .exec j pid path mnt uts → j < i)
    (e : String) (l : Label) :
    Goes leak h (ls ++ [l]) tags i next τ r k w (fail i w e).1 (fail i w e).2 where
  stepped := .fail hroot hnone e l
  own := by
    have hreport := report_fail (i := i) w e
    cases τ with
    | call c => exact absurd rfl (hcall c)
    | container j id sb info => exact .after fun k hk => by rw [hreport] at hk; cases hk
    | exec j pid path mnt uts =>
      exact ⟨hexec _ _ _ _ _ rfl, .after fun k hk => by rw [hreport] at hk; cases hk⟩
    | pinner path => exact .after
    | dialer path => exact .after fun k hk => by rw [hreport] at hk; cases hk
    | foreign => rfl
  kids := fun u hu => absurd hu List.not_mem_nil

section

variable {id : ContainerId} {sb : SandboxId} {info : SandboxInfo} {j : ℕ} {f : Frame}

theorem Entering.cons (hst : Entering leak h ls w i j sb info (f :: k)) :
    w.report i = none ∧ ∃ u m n, UtsStage h ls w i info.hostname u ∧
      MntStage leak h ls w i j sb info m ∧ NetStage w i info.netnsPath n ∧
      (u ++ m ++ n ++ [Op.execve]).map Frame.op = f :: k := by
  generalize hfs : f :: k = fs at hst
  cases hst with
  | before u m n hnone hu hm hn => exact ⟨hnone, u, m, n, hu, hm, hn, rfl⟩
  | after hdone => cases hfs

/-- The task gets a UTS namespace of its own. -/
theorem Stepped.unshareUts (hroot : Rooted leak h ls w) (l : Label) :
    Stepped leak (ls ++ [l]) τ i next false w
      ({ w with hostnames := w.hostnames.unshare (w.ns i).uts }.setNs i
        { w.ns i with uts := w.hostnames.length }) where
  elsewhere :=
    { ns := fun q hq _ => by simp [World.setNs, hq]
      report := fun _ _ _ => rfl
      child := fun _ _ => rfl
      told := fun k hk => hk
      hostnames := Spaces.length_le_unshare
      hostname := fun n _ hn =>
        (Spaces.getElem?_unshare (List.getElem?_eq_getElem hn)).trans
          (List.getElem?_eq_getElem hn).symm
      mounts := Nat.le_refl _
      mount := .inr fun _ _ _ => rfl
      nets := fun _ _ hx => hx
      resolvConfs := fun _ hsb => hsb }
  alone := fun n a ha => by
    rcases List.mem_append.mp (List.mem_of_getElem? ha) with hmem | hmem
    · obtain ⟨m, hm⟩ := List.getElem?_of_mem hmem
      exact hroot.alone m a hm
    · exact hroot.alone _ a (Option.mem_toList.mp hmem)
  pins := hroot.pins
  written := fun sb text hfile => (hroot.written sb text hfile).mono l
  exist := by
    obtain ⟨huts, hmnt, hnet⟩ := hroot.exist i
    have hlen := Spaces.length_unshare huts
    refine ⟨?_, ?_, ?_⟩
    · simp only [World.setNs, update_self]
      omega
    · simpa [World.setNs] using hmnt
    · simpa [World.setNs] using hnet
  born := fun hf => absurd hf Bool.false_ne_true
  moved := fun _ => by simp [World.setNs]

/-- The task writes in its UTS namespace, which is not the host's. -/
theorem Stepped.sethostname (hroot : Rooted leak h ls w) (hne : (w.ns i).uts ≠ 0)
    (hcon : τ.isContainer) (hostname : String) (l : Label) :
    Stepped leak (ls ++ [l]) τ i next false w
      { w with hostnames := w.hostnames.write (w.ns i).uts hostname } where
  elsewhere :=
    { ns := fun _ _ _ => rfl
      report := fun _ _ _ => rfl
      child := fun _ _ => rfl
      told := fun k hk => hk
      hostnames := Nat.le_of_eq (Spaces.length_write _).symm
      hostname := fun n hn _ => by
        have huts := List.getElem?_eq_getElem (hroot.exist i).1
        refine Spaces.getElem?_write_alone huts (hroot.alone _ _ huts) _ ?_
        rcases hn hcon with hn | rfl
        · exact hn
        · exact hne.symm
      mounts := Nat.le_refl _
      mount := .inr fun _ _ _ => rfl
      nets := fun _ _ hx => hx
      resolvConfs := fun _ hsb => hsb }
  alone := fun n a ha => by
    obtain ⟨b, huts⟩ : ∃ b, w.hostnames[(w.ns i).uts]? = some b :=
      ⟨_, List.getElem?_eq_getElem (hroot.exist i).1⟩
    by_cases hn : n = (w.ns i).uts
    · rw [hn, Spaces.getElem?_write huts] at ha
      obtain rfl := Option.some.inj ha
      exact hroot.alone _ b huts
    · rw [Spaces.getElem?_write_alone huts (hroot.alone _ _ huts) _ hn] at ha
      exact hroot.alone n a ha
  pins := hroot.pins
  written := fun sb text hfile => (hroot.written sb text hfile).mono l
  exist := by
    obtain ⟨huts, hmnt, hnet⟩ := hroot.exist i
    exact ⟨(Spaces.length_write hostname).symm ▸ huts, hmnt, hnet⟩
  born := fun hf => absurd hf Bool.false_ne_true
  moved := fun _ => ⟨.inl rfl, .inl rfl⟩

/-- The task gets a mount namespace of its own. -/
theorem Stepped.unshareMnt (hroot : Rooted leak h ls w) (l : Label) :
    Stepped leak (ls ++ [l]) τ i next false w
      ({ w with mounts := w.mounts.unshare (w.ns i).mnt }.setNs i
        { w.ns i with mnt := w.mounts.length }) where
  elsewhere :=
    { ns := fun q hq _ => by simp [World.setNs, hq]
      report := fun _ _ _ => rfl
      child := fun _ _ => rfl
      told := fun k hk => hk
      hostnames := Nat.le_refl _
      hostname := fun _ _ _ => rfl
      mounts := Spaces.length_le_unshare
      mount := .inr fun n _ hn =>
        (Spaces.getElem?_unshare (List.getElem?_eq_getElem hn)).trans
          (List.getElem?_eq_getElem hn).symm
      nets := fun _ _ hx => hx
      resolvConfs := fun _ hsb => hsb }
  alone := hroot.alone
  pins := hroot.pins
  written := fun sb text hfile => (hroot.written sb text hfile).mono l
  exist := by
    obtain ⟨huts, hmnt, hnet⟩ := hroot.exist i
    have hlen := Spaces.length_unshare hmnt
    refine ⟨?_, ?_, ?_⟩
    · simpa [World.setNs] using huts
    · simp only [World.setNs, update_self]
      omega
    · simpa [World.setNs] using hnet
  born := fun hf => absurd hf Bool.false_ne_true
  moved := fun _ => by simp [World.setNs]

/-- The task changes its mount namespace, which is not the host's, and no other. -/
theorem Stepped.mount (hroot : Rooted leak h ls w) (hne : (w.ns i).mnt ≠ 0) (hcon : τ.isContainer)
    {mounts : Spaces (Option String)} (hlen : mounts.length = w.mounts.length)
    (hown : leak ∨ ∀ n, n ≠ (w.ns i).mnt → mounts[n]? = w.mounts[n]?) (l : Label) :
    Stepped leak (ls ++ [l]) τ i next false w { w with mounts := mounts } where
  elsewhere :=
    { ns := fun _ _ _ => rfl
      report := fun _ _ _ => rfl
      child := fun _ _ => rfl
      told := fun k hk => hk
      hostnames := Nat.le_refl _
      hostname := fun _ _ _ => rfl
      mounts := Nat.le_of_eq hlen.symm
      mount := hown.imp_right fun hown n hn _ => by
        refine hown n ?_
        rcases hn hcon with hn | rfl
        · exact hn
        · exact hne.symm
      nets := fun _ _ hx => hx
      resolvConfs := fun _ hsb => hsb }
  alone := hroot.alone
  pins := hroot.pins
  written := fun sb text hfile => (hroot.written sb text hfile).mono l
  exist := by
    obtain ⟨huts, hmnt, hnet⟩ := hroot.exist i
    exact ⟨huts, hlen.symm ▸ hmnt, hnet⟩
  born := fun hf => absurd hf Bool.false_ne_true
  moved := fun _ => ⟨.inl rfl, .inl rfl⟩

/-- The child sets its name. -/
theorem Entering.stepUts {u m n : List Op} {op : Op} (hroot : Rooted leak h ls w)
    (hnone : w.report i = none) (hu : UtsStage h ls w i info.hostname (op :: u))
    (hm : MntStage leak h ls w i j sb info m) (hn : NetStage w i info.netnsPath n)
    (hk : (u ++ m ++ n ++ [Op.execve]).map Frame.op = k)
    (hex : op.exec i o w = (w', out)) :
    Goes leak h (ls ++ [Label.step i o]) tags i next (.container j id sb info) r k w w' out := by
  have huts := (hroot.exist i).1
  subst hk
  cases hu with
  | ahead hne hzero =>
    simp only [Op.exec] at hex
    split at hex
    · obtain ⟨rfl, rfl⟩ := Prod.mk.inj hex
      refine ⟨.unshareUts hroot _, ?_, fun u hu => absurd hu List.not_mem_nil⟩
      have hhost : w.hostnames[(w.ns i).uts]? = some ⟨h.hostname, none⟩ := by
        rw [hzero, hroot.hostname]
      refine .before [.sethostname info.hostname] m n hnone (.own ?_ ?_)
        (hm.other ?_ (.inr rfl) fun hsb => hsb) (hn.other ?_ fun _ _ hx => hx)
      · simpa [World.setNs] using Nat.ne_of_gt (Nat.lt_of_le_of_lt (Nat.zero_le _) huts)
      · simpa [World.setNs] using Spaces.getElem?_unshare_new hhost
      · simp [World.setNs]
      · simp [World.setNs]
    · rename_i e hfault
      obtain ⟨rfl, rfl⟩ := Prod.mk.inj hex
      refine ⟨(Calm.refl w).stepped hroot _, ?_, fun u hu => absurd hu List.not_mem_nil⟩
      refine .before [] m n hnone (.kept ?_ (.inr (failed_step ?_)))
        (hm.other rfl (.inr rfl) fun hsb => hsb) hn
      · rw [hzero, hroot.hostname]
      · rw [hfault]
        exact Option.some_ne_none e
  | own hne hshows =>
    simp only [Op.exec] at hex
    split at hex
    · obtain ⟨rfl, rfl⟩ := Prod.mk.inj hex
      refine ⟨.sethostname hroot hne rfl _ _, ?_, fun u hu => absurd hu List.not_mem_nil⟩
      exact .before [] m n hnone (.named hne (Spaces.getElem?_write hshows _))
        (hm.other rfl (.inr rfl) fun hsb => hsb) (hn.other rfl fun _ _ hx => hx)
    · rename_i e hfault
      obtain ⟨rfl, rfl⟩ := Prod.mk.inj hex
      refine ⟨(Calm.refl w).stepped hroot _, ?_, fun u hu => absurd hu List.not_mem_nil⟩
      refine .before [] m n hnone (.kept hshows (.inr (failed_step ?_)))
        (hm.other rfl (.inr rfl) fun hsb => hsb) hn
      rw [hfault]
      exact Option.some_ne_none e

/-- The child mounts its `resolv.conf`. -/
theorem Entering.stepMnt {m n : List Op} {op : Op} (hroot : Rooted leak h ls w)
    (hnone : w.report i = none) (hu : UtsStage h ls w i info.hostname [])
    (hm : MntStage leak h ls w i j sb info (op :: m)) (hn : NetStage w i info.netnsPath n)
    (hk : (m ++ n ++ [Op.execve]).map Frame.op = k)
    (hremount : leak ∨ (op = .remountPrivate → o.fault = none))
    (hex : op.exec i o w = (w', out)) :
    Goes leak h (ls ++ [Label.step i o]) tags i next (.container j id sb info) r k w w' out := by
  have hmnt := (hroot.exist i).2.1
  have hsome : ∀ e, o.fault = some e → o.fault ≠ none := fun e he => by
    rw [he]
    exact Option.some_ne_none e
  subst hk
  cases hm with
  | ahead hfile hzero =>
    simp only [Op.exec] at hex
    split at hex
    · obtain ⟨rfl, rfl⟩ := Prod.mk.inj hex
      refine ⟨.unshareMnt hroot _, ?_, fun u hu => absurd hu List.not_mem_nil⟩
      refine .before [] [.remountPrivate, .bindResolvConf sb] n hnone (hu.other ?_ rfl)
        (.own hfile ?_ ?_) (hn.other ?_ fun _ _ hx => hx)
      · simp [World.setNs]
      · simpa [World.setNs] using Nat.ne_of_gt (Nat.lt_of_le_of_lt (Nat.zero_le _) hmnt)
      · refine hroot.resolvConf.imp_right fun hhost => ?_
        rw [← hzero] at hhost
        simpa [World.setNs] using Spaces.getElem?_unshare_new hhost
      · simp [World.setNs]
    · rename_i e hfault
      obtain ⟨rfl, rfl⟩ := Prod.mk.inj hex
      refine ⟨(Calm.refl w).stepped hroot _, ?_, fun u hu => absurd hu List.not_mem_nil⟩
      refine .before [] [] n hnone (hu.other rfl rfl)
        (.kept (.inr (.inr (failed_step (hsome e hfault)))) ?_) hn
      exact hroot.resolvConf.imp_right fun hhost => ⟨h.peers, by rw [hzero, hhost]⟩
  | own hfile hne hshows =>
    simp only [Op.exec] at hex
    split at hex
    · obtain ⟨rfl, rfl⟩ := Prod.mk.inj hex
      refine ⟨.mount hroot hne rfl Spaces.length_isolate
        (.inr fun n hn => Spaces.getElem?_isolate_ne hn) _, ?_, fun u hu => absurd hu List.not_mem_nil⟩
      exact .before [] [.bindResolvConf sb] n hnone (hu.other rfl rfl)
        (.alone hfile hne (hshows.imp_right fun hshows => Spaces.getElem?_isolate hshows))
        (hn.other rfl fun _ _ hx => hx)
    · rename_i e hfault
      obtain ⟨rfl, rfl⟩ := Prod.mk.inj hex
      refine ⟨(Calm.refl w).stepped hroot _, ?_, fun u hu => absurd hu List.not_mem_nil⟩
      have hleak : leak := hremount.resolve_right fun hno => hsome e hfault (hno rfl)
      exact .before [] [.bindResolvConf sb] n hnone (hu.other rfl rfl)
        (.alone hfile hne (.inl hleak)) hn
  | alone hfile hne hshows =>
    simp only [Op.exec] at hex
    split at hex
    · rename_i text hfault htext
      obtain ⟨rfl, rfl⟩ := Prod.mk.inj hex
      refine ⟨.mount hroot hne rfl (Spaces.length_write _) (hshows.imp_right fun hshows n hn =>
        Spaces.getElem?_write_alone hshows rfl _ hn) _, ?_, fun u hu => absurd hu List.not_mem_nil⟩
      exact .before [] [] n hnone (hu.other rfl rfl)
        (.bound text ((hroot.written sb text htext).mono _) hne
          (hshows.imp_right fun hshows => Spaces.getElem?_write hshows _))
        (hn.other rfl fun _ _ hx => hx)
    · rename_i hother
      obtain ⟨rfl, rfl⟩ := Prod.mk.inj hex
      refine ⟨(Calm.refl w).stepped hroot _, ?_, fun u hu => absurd hu List.not_mem_nil⟩
      obtain ⟨text, htext⟩ := Option.isSome_iff_exists.mp hfile
      refine .before [] [] n hnone (hu.other rfl rfl) (.kept (.inr (.inr (failed_step ?_))) ?_) hn
      · exact fun hfault => hother text hfault htext
      · exact hshows.imp_right fun hshows => ⟨none, hshows⟩

/-- The child joins the network namespace of its sandbox, and then executes its program. -/
theorem NetStage.step {path : Option String} {n : List Op} {op : Op}
    (hn : NetStage w i path n) (hk : (n ++ [Op.execve]).map Frame.op = .op op :: k)
    (hex : op.exec i o w = (w', out)) :
    (∃ m, w' = w.setNs i { w.ns i with net := m } ∧ m < w.nets.length ∧ out = .next [] ∧
        k = [.op .execve] ∧ NetStage w' i path []) ∨
      (∃ e, w' = (fail i w e).1 ∧ out = (fail i w e).2) ∨
      w' = w.tell i (.ok i) ∧ out = .halt (.ok (.running i)) ∧ NetStage w i path [] := by
  have execve : NetStage w i path [] → op = .execve →
      (∃ e, w' = (fail i w e).1 ∧ out = (fail i w e).2) ∨
        w' = w.tell i (.ok i) ∧ out = .halt (.ok (.running i)) ∧ NetStage w i path [] := by
    rintro hnet rfl
    simp only [Op.exec] at hex
    split at hex
    · obtain ⟨rfl, rfl⟩ := Prod.mk.inj hex
      exact .inr ⟨rfl, rfl, hnet⟩
    · rename_i e _
      obtain ⟨rfl, rfl⟩ := Prod.mk.inj hex
      exact .inl ⟨e, rfl, rfl⟩
  cases hn with
  | ahead path net hzero hnet =>
    obtain ⟨hop, rfl⟩ := List.cons.inj hk
    obtain rfl := Frame.op.inj hop
    simp only [Op.exec] at hex
    split at hex
    · rename_i m _
      obtain ⟨rfl, rfl⟩ := Prod.mk.inj hex
      have hm := hnet m rfl
      refine .inl ⟨m, rfl, (List.getElem?_eq_some_iff.mp hm).1, rfl, rfl, .joined path ?_⟩
      simpa [World.setNs] using hm
    · obtain ⟨rfl, rfl⟩ := Prod.mk.inj hex
      exact .inr (.inl ⟨_, rfl, rfl⟩)
    · obtain ⟨rfl, rfl⟩ := Prod.mk.inj hex
      exact .inr (.inl ⟨_, rfl, rfl⟩)
  | joined path hnet =>
    exact .inr (execve (.joined path hnet) (Frame.op.inj (List.cons.inj hk).1).symm)
  | host hzero => exact .inr (execve (.host hzero) (Frame.op.inj (List.cons.inj hk).1).symm)

/-- A task moves to a network namespace that is there. -/
theorem Stepped.setNet (hroot : Rooted leak h ls w) (hnone : w.report i = none) {n : ℕ}
    (hn : n < w.nets.length) (l : Label) :
    Stepped leak (ls ++ [l]) τ i next false w (w.setNs i { w.ns i with net := n }) := by
  obtain ⟨huts, hmnt, -⟩ := hroot.exist i
  refine .self hroot hnone rfl rfl rfl rfl rfl rfl (fun q hq => ?_) (fun _ _ => rfl) ?_ fun _ => ?_
  · simp [World.setNs, hq]
  · exact ⟨by simpa [World.setNs] using huts, by simpa [World.setNs] using hmnt,
      by simpa [World.setNs] using hn⟩
  · simp [World.setNs]

/-- A task has done its work. -/
theorem Stepped.tell (hroot : Rooted leak h ls w) (hnone : w.report i = none)
    (x : Except String ℕ) (l : Label) :
    Stepped leak (ls ++ [l]) τ i next false w (w.tell i x) := by
  refine .self hroot hnone rfl rfl rfl rfl rfl rfl (fun _ _ => rfl) (fun q hq => ?_)
    (hroot.exist i) fun _ => ⟨rfl, rfl⟩
  simp [World.tell, hq]

theorem Entering.stepNet {n : List Op} {op : Op} (hroot : Rooted leak h ls w)
    (hnone : w.report i = none) (hu : UtsStage h ls w i info.hostname [])
    (hm : MntStage leak h ls w i j sb info []) (hn : NetStage w i info.netnsPath n)
    (hk : (n ++ [Op.execve]).map Frame.op = .op op :: k) (hex : op.exec i o w = (w', out)) :
    Goes leak h (ls ++ [Label.step i o]) tags i next (.container j id sb info) r k w w' out := by
  rcases hn.step hk hex with ⟨m, rfl, hlt, rfl, rfl, hnet⟩ | ⟨e, rfl, rfl⟩ | ⟨rfl, rfl, hnet⟩
  · refine ⟨.setNet hroot hnone hlt _, ?_, fun u hu => absurd hu List.not_mem_nil⟩
    refine .before [] [] [] hnone (hu.other ?_ rfl) (hm.other ?_ (.inr rfl) fun hsb => hsb) hnet
    · simp [World.setNs]
    · simp [World.setNs]
  · exact .fails hroot hnone (fun c hc => by cases hc) (fun _ _ _ _ _ hx => by cases hx) e _
  · refine ⟨.tell hroot hnone _ _, .after fun k hk => ?_, fun u hu => absurd hu List.not_mem_nil⟩
    have hk' : i = k := by simpa [World.tell] using hk
    exact ⟨hk'.symm, hu.other rfl rfl, hm.other rfl (.inr rfl) fun hsb => hsb,
      hnet.other rfl fun _ _ hx => hx⟩

/-- **What the process of a container does.** -/
theorem Entering.step (hroot : Rooted leak h ls w)
    (hst : Entering leak h ls w i j sb info (f :: k))
    (hremount : leak ∨ (f = .op .remountPrivate → o.fault = none))
    (hex : exec i next o f w = some (w', out)) :
    Goes leak h (ls ++ [Label.step i o]) tags i next (.container j id sb info) r k w w' out := by
  obtain ⟨hnone, u, m, n, hu, hm, hn, hfs⟩ := hst.cons
  obtain ⟨op, rfl⟩ : ∃ op, f = .op op := by
    have hmem : f ∈ (u ++ m ++ n ++ [Op.execve]).map Frame.op := by
      rw [hfs]
      exact List.mem_cons_self
    obtain ⟨op, -, hop⟩ := List.mem_map.mp hmem
    exact ⟨op, hop.symm⟩
  have hex' := Option.some.inj hex
  cases u with
  | cons op' u =>
    obtain ⟨hop, hk⟩ := List.cons.inj hfs
    obtain rfl := Frame.op.inj hop
    exact stepUts hroot hnone hu hm hn hk hex'
  | nil =>
    cases m with
    | cons op' m =>
      obtain ⟨hop, hk⟩ := List.cons.inj hfs
      obtain rfl := Frame.op.inj hop
      exact stepMnt hroot hnone hu hm hn hk (hremount.imp_right fun hno heq => hno (heq ▸ rfl)) hex'
    | nil => exact stepNet hroot hnone hu hm hn hfs hex'

end

/-- A process that is not a container's joins other namespaces. -/
theorem Stepped.move {l : Label} {ns : Nsproxy} (hroot : Rooted leak h ls w)
    (hnone : w.report i = none) (hns : ns.Exists w) (hcon : τ.isContainer = false) :
    Stepped leak (ls ++ [l]) τ i next false w (w.setNs i ns) := by
  refine .self hroot hnone rfl rfl rfl rfl rfl rfl (fun q hq => ?_) (fun _ _ => rfl) ?_
    fun htrue => absurd (htrue.symm.trans hcon) (by decide)
  · simp [World.setNs, hq]
  · simpa [World.setNs] using hns

section

variable {path : Option String} {pid mnt uts j : ℕ} {f : Frame}

/-- The process has joined one namespace, and could not join another. -/
theorem Joining.fails {l : Label} {ns : Nsproxy} {e : String} (hroot : Rooted leak h ls w)
    (hnone : w.report i = none) (hns : ns.Exists w) (hj : j < i) :
    Goes leak h (ls ++ [l]) tags i next (.exec j pid path mnt uts) r k w
      (fail i (w.setNs i ns) e).1 (fail i (w.setNs i ns) e).2 where
  stepped := by
    refine .self hroot hnone rfl rfl rfl rfl rfl rfl (fun q hq => ?_) (fun q hq => ?_) ?_
      fun hcon => absurd hcon Bool.false_ne_true
    · simp [fail, World.tell, World.exit, World.setNs, hq]
    · simp [fail, World.tell, World.exit, World.setNs, hq]
    · simpa [fail, World.tell, World.exit, World.setNs] using hns
  own := ⟨hj, .after fun k hk => by rw [report_fail] at hk; cases hk⟩
  kids := fun u hu => absurd hu List.not_mem_nil

/-- **What a process that joins a container does.** -/
theorem Joining.step (hroot : Rooted leak h ls w) (hj : j < i)
    (hst : Joining w i path mnt uts (f :: k))
    (hex : exec i next o f w = some (w', out)) :
    Goes leak h (ls ++ [Label.step i o]) tags i next (.exec j pid path mnt uts) r k w w' out := by
  obtain ⟨hutsOf, hmntOf, hnetOf⟩ := hroot.exist i
  have hjoin : ∀ j' pid' path' mnt' uts',
      Tag.exec j pid path mnt uts = .exec j' pid' path' mnt' uts' →
      j' < i := fun j' pid' path' mnt' uts' heq => by
    cases heq
    exact hj
  generalize hfs : f :: k = fs at hst
  cases hst with
  | mnt n hnone hmnt huts hn =>
    obtain ⟨rfl, rfl⟩ := List.cons.inj hfs
    have hex' := Option.some.inj hex
    simp only [Op.exec] at hex'
    split at hex'
    · obtain ⟨rfl, rfl⟩ := Prod.mk.inj hex'
      refine ⟨.move hroot hnone ⟨hutsOf, hmnt, hnetOf⟩ rfl, ?_,
        fun u hu => absurd hu List.not_mem_nil⟩
      refine ⟨hj, .uts n none hnone huts (fun _ => ?_) (hn.other ?_ fun _ _ hx => hx)⟩
      · simp [World.setNs]
      · simp [World.setNs]
    · obtain ⟨rfl, rfl⟩ := Prod.mk.inj hex'
      exact ⟨(Calm.refl w).stepped hroot _, ⟨hj, .uts n _ hnone huts (fun he => by cases he) hn⟩,
        fun u hu => absurd hu List.not_mem_nil⟩
  | uts n e hnone huts hmnt hn =>
    obtain ⟨rfl, rfl⟩ := List.cons.inj hfs
    have hex' := Option.some.inj hex
    simp only [Op.exec] at hex'
    split at hex'
    · obtain ⟨rfl, rfl⟩ := Prod.mk.inj hex'
      refine ⟨.move hroot hnone ⟨huts, hmntOf, hnetOf⟩ rfl, ?_,
        fun u hu => absurd hu List.not_mem_nil⟩
      refine ⟨hj, .net n hnone ?_ ?_ (hn.other ?_ fun _ _ hx => hx)⟩
      · simpa [World.setNs] using hmnt rfl
      · simp [World.setNs]
      · simp [World.setNs]
    · obtain ⟨rfl, rfl⟩ := Prod.mk.inj hex'
      exact fails hroot hnone ⟨huts, hmntOf, hnetOf⟩ hj
    · obtain ⟨rfl, rfl⟩ := Prod.mk.inj hex'
      exact .fails hroot hnone (fun c hc => by cases hc) hjoin _ _
  | net n hnone hmnt huts hn =>
    obtain ⟨op, rfl⟩ : ∃ op, f = .op op := by
      have hmem : f ∈ (n ++ [Op.execve]).map Frame.op := by rw [← hfs]; exact List.mem_cons_self
      obtain ⟨op, -, hop⟩ := List.mem_map.mp hmem
      exact ⟨op, hop.symm⟩
    rcases hn.step hfs.symm (Option.some.inj hex) with
      ⟨m, rfl, hlt, rfl, rfl, hnet⟩ | ⟨e, rfl, rfl⟩ | ⟨rfl, rfl, hnet⟩
    · refine ⟨.setNet hroot hnone hlt _, ?_, fun u hu => absurd hu List.not_mem_nil⟩
      refine ⟨hj, .net [] hnone ?_ ?_ hnet⟩
      · simpa [World.setNs] using hmnt
      · simpa [World.setNs] using huts
    · exact .fails hroot hnone (fun c hc => by cases hc) hjoin e _
    · refine ⟨.tell hroot hnone _ _, ⟨hj, .after fun k hk => ?_⟩,
        fun u hu => absurd hu List.not_mem_nil⟩
      have hk' : i = k := by simpa [World.tell] using hk
      exact ⟨hk'.symm, hmnt, huts, hnet.other rfl fun _ _ hx => hx⟩
  | after hdone => cases hfs

end

/-- **What the thread of `netns::create` does.** -/
theorem Pinning.step {path : String} {f : Frame} (hroot : Rooted leak h ls w)
    (hst : Pinning w i path (f :: k)) (hex : exec i next o f w = some (w', out)) :
    Goes leak h (ls ++ [Label.step i o]) tags i next (.pinner path) r k w w' out := by
  obtain ⟨huts, hmnt, -⟩ := hroot.exist i
  cases hst with
  | unshare hnone =>
    simp only [exec] at hex
    split at hex
    · obtain ⟨rfl, rfl⟩ := Prod.mk.inj (Option.some.inj hex)
      have hold : ∀ (n : ℕ) x, w.nets[n]? = some x → (w.nets ++ [some path])[n]? = some x :=
        fun n x hx => by rw [List.getElem?_append_left (List.getElem?_eq_some_iff.mp hx).1, hx]
      refine ⟨⟨.self hnone rfl rfl hold rfl rfl (fun q hq => ?_) fun _ _ => rfl, hroot.alone,
        fun p hp => hold _ _ (hroot.pins p hp), fun sb text hfile =>
          (hroot.written sb text hfile).mono _, ?_, fun hf => absurd hf Bool.false_ne_true,
        fun hcon => absurd hcon Bool.false_ne_true⟩, .mount hnone ?_,
        fun u hu => absurd hu List.not_mem_nil⟩
      · simp [World.setNs, hq]
      · simpa [World.setNs, Nsproxy.Exists] using And.intro huts hmnt
      · simp [World.setNs]
    · obtain ⟨rfl, rfl⟩ := Prod.mk.inj (Option.some.inj hex)
      exact .fails hroot hnone (fun c hc => by cases hc) (fun _ _ _ _ _ hx => by cases hx) _ _
  | mount hnone hnet =>
    simp only [exec] at hex
    split at hex
    · split at hex
      · obtain ⟨rfl, rfl⟩ := Prod.mk.inj (Option.some.inj hex)
        refine ⟨⟨.self hnone rfl rfl (fun _ _ hx => hx) rfl rfl (fun _ _ => rfl) (fun q hq => ?_),
          hroot.alone, fun p hp => ?_, fun sb text hfile => (hroot.written sb text hfile).mono _,
          hroot.exist i, fun hf => absurd hf Bool.false_ne_true,
          fun hcon => absurd hcon Bool.false_ne_true⟩, .after,
          fun u hu => absurd hu List.not_mem_nil⟩
        · simp [World.tell, hq]
        · rcases List.mem_cons.mp hp with rfl | hp
          · exact hnet
          · exact hroot.pins p hp
      · obtain ⟨rfl, rfl⟩ := Prod.mk.inj (Option.some.inj hex)
        exact .fails hroot hnone (fun c hc => by cases hc) (fun _ _ _ _ _ hx => by cases hx) _ _
    · obtain ⟨rfl, rfl⟩ := Prod.mk.inj (Option.some.inj hex)
      exact .fails hroot hnone (fun c hc => by cases hc) (fun _ _ _ _ _ hx => by cases hx) _ _

/-- **What the thread of `dial_in_netns` does.** -/
theorem Dialing.step {path : String} {f : Frame} (hroot : Rooted leak h ls w)
    (hst : Dialing w i path (f :: k)) (hex : exec i next o f w = some (w', out)) :
    Goes leak h (ls ++ [Label.step i o]) tags i next (.dialer path) r k w w' out := by
  cases hst with
  | enter hnone =>
    simp only [exec] at hex
    split at hex
    · split at hex
      · split at hex
        · rename_i n hpin
          obtain ⟨rfl, rfl⟩ := Prod.mk.inj (Option.some.inj hex)
          have hnet := hroot.pins _ (pinned_mem hpin)
          refine ⟨.setNet hroot hnone (List.getElem?_eq_some_iff.mp hnet).1 _,
            .connect hnone ?_, fun u hu => absurd hu List.not_mem_nil⟩
          simpa [World.setNs] using hnet
        · obtain ⟨rfl, rfl⟩ := Prod.mk.inj (Option.some.inj hex)
          exact .fails hroot hnone (fun c hc => by cases hc) (fun _ _ _ _ _ hx => by cases hx) _ _
      · obtain ⟨rfl, rfl⟩ := Prod.mk.inj (Option.some.inj hex)
        exact .fails hroot hnone (fun c hc => by cases hc) (fun _ _ _ _ _ hx => by cases hx) _ _
    · obtain ⟨rfl, rfl⟩ := Prod.mk.inj (Option.some.inj hex)
      exact .fails hroot hnone (fun c hc => by cases hc) (fun _ _ _ _ _ hx => by cases hx) _ _
  | connect hnone hnet =>
    simp only [exec] at hex
    split at hex
    · obtain ⟨rfl, rfl⟩ := Prod.mk.inj (Option.some.inj hex)
      refine ⟨.tell hroot hnone _ _, .after fun n hn => ?_, fun u hu => absurd hu List.not_mem_nil⟩
      have hn' : (w.ns i).net = n := by simpa [World.tell] using hn
      exact hn' ▸ hnet
    · obtain ⟨rfl, rfl⟩ := Prod.mk.inj (Option.some.inj hex)
      exact .fails hroot hnone (fun c hc => by cases hc) (fun _ _ _ _ _ hx => by cases hx) _ _

theorem Rooted.step {forks : Bool} {l : Label} (hroot : Rooted leak h ls w)
    (hst : Stepped leak (ls ++ [l]) τ i next forks w w') : Rooted leak h (ls ++ [l]) w' := by
  have hel := hst.elsewhere
  have hhost := hel.hostname 0 (fun _ => .inr rfl) (hroot.exist i |>.1 |> Nat.zero_lt_of_lt)
  refine ⟨by rw [hhost, hroot.hostname], hst.alone, Nat.lt_of_lt_of_le hroot.mounts hel.mounts, ?_,
    hel.nets _ _ hroot.nets, hst.pins, hst.written, fun q => ?_⟩
  · rcases hel.mount with hleak | hmount
    · exact .inl hleak
    · exact hroot.resolvConf.imp_right fun hzero => by
        rw [hmount 0 (fun _ => .inr rfl) hroot.mounts, hzero]
  · have hkept : ∀ ns : Nsproxy, ns.Exists w → ns.Exists w' := fun ns ⟨huts, hmnt, hnet⟩ =>
      ⟨Nat.lt_of_lt_of_le huts hel.hostnames, Nat.lt_of_lt_of_le hmnt hel.mounts,
        (List.getElem?_eq_some_iff.mp (hel.nets _ _ (List.getElem?_eq_getElem hnet))).1⟩
    by_cases hq : q = i
    · rw [hq]
      exact hst.exist
    · by_cases hborn : q = next ∧ forks
      · rw [hborn.1, (hst.born hborn.2).1]
        have hzero := hroot.exist next
        exact hkept {} ⟨Nat.zero_lt_of_lt hzero.1, hroot.mounts,
          (List.getElem?_eq_some_iff.mp hroot.nets).1⟩
      · rw [hel.ns q hq fun hnext => by simpa [hnext] using hborn]
        exact hkept _ (hroot.exist q)

end Steps

/-! ## Runs -/

section Runs

variable {leak : Prop} {h : Host} {ls : List Label} {s s' : State}

theorem tag?_eq_some {q : ℕ} {τ : Tag} (hτ : s.tag? q = some τ) :
    ∃ t, s.tasks[q]? = some t ∧ t.tag = τ :=
  Option.map_eq_some_iff.mp hτ

theorem lt_of_tag? {q : ℕ} {τ : Tag} (hτ : s.tag? q = some τ) : q < s.tasks.length := by
  obtain ⟨t, ht, -⟩ := tag?_eq_some hτ
  exact (List.getElem?_eq_some_iff.mp ht).1

theorem Inv.init (h : Host) : Inv leak h [] (init h) where
  rooted :=
    { hostname := rfl
      alone := fun n a ha => by
        obtain rfl := List.mem_singleton.mp (List.mem_of_getElem? ha)
        rfl
      mounts := Nat.one_pos
      resolvConf := .inr rfl
      nets := rfl
      pins := fun p hp => absurd hp List.not_mem_nil
      written := fun sb text hfile => by cases hfile
      exist := fun q => ⟨Nat.one_pos, Nat.one_pos, Nat.one_pos⟩ }
  holds := fun q t ht => by simp [Namespaces.init] at ht
  unborn := fun q hq => ⟨rfl, rfl, rfl⟩
  uts := fun q q' hq => by
    obtain ⟨τ, hτ, -⟩ := hq
    simp [Namespaces.init, State.tag?] at hτ
  mnt := fun q q' hq => by
    obtain ⟨τ, hτ, -⟩ := hq
    simp [Namespaces.init, State.tag?] at hτ

/-- A state with the same tasks and perhaps one more, which is in a world where only what is in the
new task's name has changed. -/
theorem Inv.extend {w : World} {t : Task Tag Frame Result} {l : Label} (hinv : Inv leak h ls s)
    (hst : Stepped leak (ls ++ [l]) .foreign s.tasks.length s.tasks.length false s.shared w)
    (hnew : Holds leak h (ls ++ [l]) (State.tag? ⟨w, s.tasks ++ [t]⟩) w s.tasks.length t)
    (hcon : t.tag.isContainer = false) :
    Inv leak h (ls ++ [l]) ⟨w, s.tasks ++ [t]⟩ := by
  have hel := hst.elsewhere
  have htags : ∀ q τ, s.tag? q = some τ →
      State.tag? ⟨w, s.tasks ++ [t]⟩ q = some τ := fun q τ hτ => by
    rw [State.tag?, List.getElem?_append_left (lt_of_tag? hτ)]
    exact hτ
  have hold : ∀ q, State.container ⟨w, s.tasks ++ [t]⟩ q → s.container q := by
    rintro q ⟨τ, hτ, hτcon⟩
    obtain ⟨u, hu, rfl⟩ := tag?_eq_some hτ
    rw [List.getElem?_append] at hu
    split at hu
    · exact ⟨u.tag, by rw [State.tag?, hu, Option.map_some], hτcon⟩
    · obtain rfl : t = u := by
        simpa using List.mem_of_getElem? hu |> List.mem_singleton.mp |> Eq.symm
      rw [hcon] at hτcon
      cases hτcon
  refine ⟨hinv.rooted.step hst, fun q u hu => ?_, fun q hq => ?_, ?_, ?_⟩
  · rw [List.getElem?_append] at hu
    split at hu
    · rename_i hlt
      exact (hinv.holds q u hu).other hinv.rooted hel (Nat.ne_of_lt hlt) hlt htags
        (fun q τ hτ => lt_of_tag? hτ) (fun _ hmine => absurd hmine Bool.false_ne_true) l
    · rename_i hge
      obtain ⟨hlt, rfl⟩ := List.getElem?_eq_some_iff.mp hu
      obtain rfl : q = s.tasks.length := by
        rw [List.length_singleton] at hlt
        omega
      simpa using hnew
  · have hlen : s.tasks.length + 1 ≤ q := by simpa using hq
    obtain ⟨hns, hch, hrep⟩ := hinv.unborn q (by omega)
    have hne : q ≠ s.tasks.length := by omega
    exact ⟨(hel.ns q hne fun hq => absurd hq hne).trans hns, (hel.child q hne).trans hch,
      (hel.report q hne fun hq => absurd hq hne).trans hrep⟩
  · refine hinv.uts.step s.tasks.length (fun q => (hinv.rooted.exist q).1) (fun hi => ?_)
      (fun q _ hq => ?_)
      fun q hq => .inl (hold q hq)
    · obtain ⟨τ, hτ, -⟩ := hi
      exact absurd (lt_of_tag? hτ) (Nat.lt_irrefl _)
    · rw [hel.ns q hq fun hq' => absurd hq' hq]
  · refine hinv.mnt.step s.tasks.length (fun q => (hinv.rooted.exist q).2.1) (fun hi => ?_)
      (fun q _ hq => ?_)
      fun q hq => .inl (hold q hq)
    · obtain ⟨τ, hτ, -⟩ := hi
      exact absurd (lt_of_tag? hτ) (Nat.lt_irrefl _)
    · rw [hel.ns q hq fun hq' => absurd hq' hq]

theorem Inv.invoke (hinv : Inv leak h ls s) (c : Call) :
    Inv leak h (ls ++ [Label.invoke c]) (s.start (.call c) c.frames) := by
  obtain ⟨hns, hchild, hreport⟩ := hinv.unborn s.tasks.length (Nat.le_refl _)
  refine hinv.extend ((Calm.refl s.shared).stepped hinv.rooted _) ?_ rfl
  refine ⟨hns, .inl hreport, List.mem_append_right _ List.mem_cons_self, fun f hf => ?_,
    fun q hq => ?_, fun v hv => by cases hv⟩
  rotate_left
  · rw [hchild] at hq
    cases hq
  cases c with
  | startContainer id sb info =>
    obtain rfl := List.mem_singleton.mp hf
    exact .write id sb info
  | exec v id pid path =>
    obtain rfl := List.mem_singleton.mp hf
    exact .openMnt v id pid path
  | create name =>
    rcases List.mem_cons.mp hf with rfl | hf
    · exact .touch name
    · rcases List.mem_pair.mp hf with rfl | rfl
      · exact .createThread name
      · exact .created name
  | teardown path =>
    rcases List.mem_pair.mp hf with rfl | rfl
    · exact .umount path
    · exact .unlink path
  | sweep =>
    obtain rfl := List.mem_singleton.mp hf
    exact .readDir
  | dial path =>
    cases path with
    | none =>
      obtain rfl := List.mem_singleton.mp hf
      exact .connect
    | some path =>
      rcases List.mem_pair.mp hf with rfl | rfl
      · exact .dialThread path
      · exact .dialed path

theorem Inv.foreign {pid : ℕ} {ns : Nsproxy} (hinv : Inv leak h ls s) (hns : ns.Exists s.shared) :
    Inv leak h (ls ++ [Label.foreign pid ns])
      ⟨{ (s.shared.setNs s.tasks.length ns).tell s.tasks.length (.ok s.tasks.length) with
          pids := (pid, s.tasks.length) :: s.shared.pids },
        s.tasks ++ [⟨.foreign, [], none⟩]⟩ := by
  obtain ⟨-, -, hreport⟩ := hinv.unborn s.tasks.length (Nat.le_refl _)
  refine hinv.extend (.self hinv.rooted hreport rfl rfl rfl rfl rfl rfl (fun q hq => ?_)
    (fun q hq => ?_) ?_ fun hcon => absurd hcon Bool.false_ne_true) rfl rfl
  · simp [World.tell, World.setNs, hq]
  · simp [World.tell, World.setNs, hq]
  · simpa [World.tell, World.setNs] using hns

/-- What a task says when it is asked. -/
theorem Inv.spoken (hinv : Inv leak h ls s) {q n : ℕ} {τ : Tag}
    (hreport : s.shared.report q = some (.ok n)) (hτ : s.tag? q = some τ) :
    Spoken s.shared q n τ := by
  obtain ⟨⟨tag, fs, r⟩, ht, rfl⟩ := tag?_eq_some hτ
  have hholds := hinv.holds q _ ht
  have hnot : ∀ P : Prop, s.shared.report q = none → P := fun P hnone => by
    rw [hreport] at hnone
    cases hnone
  cases tag with
  | container j id sb info =>
    have hst : Entering leak h ls s.shared q j sb info fs := hholds
    cases hst with
    | before u m n hnone => exact hnot _ hnone
    | after hdone => exact (hdone n hreport).1
  | exec j pid path mnt uts =>
    have hst : Joining s.shared q path mnt uts fs := hholds.2
    cases hst with
    | mnt n hnone => exact hnot _ hnone
    | uts n e hnone => exact hnot _ hnone
    | net n hnone => exact hnot _ hnone
    | after hdone => exact (hdone n hreport).1
  | dialer path =>
    have hst : Dialing s.shared q path fs := hholds
    cases hst with
    | enter hnone => exact hnot _ hnone
    | connect hnone => exact hnot _ hnone
    | after hdone => exact hdone n hreport
  | _ => exact True.intro

section Advance

variable {i : ℕ} {o : Oracle} {t : Task Tag Frame Result} {f : Frame} {k : List Frame} {out : Out}

theorem tag?_advance (hadv : Pool.Advance exec s i o s' t f k out) {q : ℕ} {τ : Tag}
    (hτ : s.tag? q = some τ) : s'.tag? q = some τ := by
  obtain ⟨u, hu, rfl⟩ := tag?_eq_some hτ
  by_cases hq : q = i
  · subst hq
    obtain rfl := Option.some.inj (hadv.task.symm.trans hu)
    rw [State.tag?, hadv.getElem?_self, Option.map_some, Task.resume_tag]
  · rw [State.tag?, hadv.getElem?_of_some hq hu, Option.map_some]

theorem getElem?_child (hadv : Pool.Advance exec s i o s' t f k out)
    {u : Task Tag Frame Result} (hu : u ∈ out.children) : s'.tasks[s.tasks.length]? = some u := by
  cases out with
  | next fs => cases hu
  | fork tag child =>
    obtain rfl := List.mem_singleton.mp hu
    rw [hadv.tasks, List.getElem?_append_right (by simp)]
    simp
  | halt res => cases hu

/-- A task makes a step. -/
theorem Inv.goes (hinv : Inv leak h ls s) (hrem : leak ∨ remounts s (.step i o))
    (hadv : Pool.Advance exec s i o s' t f k out) :
    Goes leak h (ls ++ [Label.step i o]) s'.tag? i s.tasks.length t.tag t.result k s.shared
      s'.shared out := by
  have hholds := hinv.holds i t hadv.task
  have htop := hadv.top_eq
  have hex := hadv.exec
  have hfs := hadv.frames
  obtain ⟨-, hfresh, -⟩ := hinv.unborn s.tasks.length (Nat.le_refl _)
  obtain ⟨tag, fs, r⟩ := t
  obtain rfl : fs = f :: k := hfs
  cases tag with
  | call c =>
    have hcall : Calling ls s.tag? s.shared i c (f :: k) r := hholds
    refine hcall.step hinv.rooted hadv.lt_length hfresh
      (fun q n τ hreport hτ => hinv.spoken hreport hτ) (fun q τ hτ => tag?_advance hadv hτ)
      (fun q τ hτ => lt_of_tag? hτ) (fun u hu => ?_) hex
    rw [State.tag?, getElem?_child hadv hu, Option.map_some]
  | container j id sb info =>
    have hst : Entering leak h ls s.shared i j sb info (f :: k) := hholds
    exact hst.step hinv.rooted (hrem.imp_right fun hok hf => hok (by rw [htop, hf])) hex
  | exec j pid path mnt uts =>
    have hst : Joining s.shared i path mnt uts (f :: k) := hholds.2
    exact hst.step hinv.rooted hholds.1 hex
  | pinner path =>
    have hst : Pinning s.shared i path (f :: k) := hholds
    exact hst.step hinv.rooted hex
  | dialer path =>
    have hst : Dialing s.shared i path (f :: k) := hholds
    exact hst.step hinv.rooted hex
  | foreign => cases hholds

/-- A process of a container after the step was one before, or is new and where its parent is. -/
theorem container_advance (hadv : Pool.Advance exec s i o s' t f k out)
    (hgoes : Goes leak h ls s'.tag? i s.tasks.length t.tag t.result k s.shared s'.shared out)
    {q : ℕ} (hq : s'.container q) : s.container q ∨ s'.shared.ns q = {} := by
  obtain ⟨τ, hτ, hcon⟩ := hq
  obtain ⟨u, hu, rfl⟩ := tag?_eq_some hτ
  rcases hadv.cases hu with ⟨rfl, rfl⟩ | ⟨-, hu⟩ | ⟨rfl, hkid⟩
  · rw [Task.resume_tag] at hcon
    exact .inl ⟨t.tag, by rw [State.tag?, hadv.task, Option.map_some], hcon⟩
  · exact .inl ⟨u.tag, by rw [State.tag?, hu, Option.map_some], hcon⟩
  · refine .inr (hgoes.stepped.born ?_).1
    cases hout : out.children with
    | nil => rw [hout] at hkid; cases hkid
    | cons v vs => rfl

theorem Inv.advance (hinv : Inv leak h ls s) (hrem : leak ∨ remounts s (.step i o))
    (hadv : Pool.Advance exec s i o s' t f k out) : Inv leak h (ls ++ [Label.step i o]) s' := by
  have hgoes := hinv.goes hrem hadv
  have hel := hgoes.stepped.elsewhere
  have hlt := hadv.lt_length
  have hcon : s.container i → t.tag.isContainer := by
    rintro ⟨τ, hτ, hcon⟩
    rw [State.tag?, hadv.task, Option.map_some] at hτ
    rw [Option.some.inj hτ]
    exact hcon
  have hsame : ∀ q, s.container q → q ≠ i → s'.shared.ns q = s.shared.ns q := by
    rintro q ⟨τ, hτ, -⟩ hq
    exact hel.ns q hq fun hnext => absurd hnext (Nat.ne_of_lt (lt_of_tag? hτ))
  refine ⟨hinv.rooted.step hgoes.stepped, fun q u hu => ?_, fun q hq => ?_, ?_, ?_⟩
  · rcases hadv.cases hu with ⟨rfl, rfl⟩ | ⟨hq, hu⟩ | ⟨rfl, hkid⟩
    · have hown := hgoes.own
      cases out <;> exact hown
    · refine (hinv.holds q u hu).other hinv.rooted hel hq (List.getElem?_eq_some_iff.mp hu).1
        (fun q τ hτ => tag?_advance hadv hτ) (fun q τ hτ => lt_of_tag? hτ) (fun hucon hmine => ?_) _
      have hcq : s.container q := ⟨u.tag, by rw [State.tag?, hu, Option.map_some], hucon⟩
      have hci : s.container i := ⟨t.tag, by rw [State.tag?, hadv.task, Option.map_some], hmine⟩
      exact ⟨or_iff_not_imp_left.mpr fun heq => hinv.uts q i hcq hci hq (not_not.mp heq),
        or_iff_not_imp_left.mpr fun heq => hinv.mnt q i hcq hci hq (not_not.mp heq)⟩
    · exact hgoes.kids u hkid
  · rw [hadv.tasks, List.length_append, List.length_set] at hq
    obtain ⟨hns, hchild, hreport⟩ := hinv.unborn q (Nat.le_trans (Nat.le_add_right _ _) hq)
    have hne : q ≠ i := by omega
    have hnext : q = s.tasks.length → (!out.children.isEmpty) = false := by
      rintro rfl
      have hnil : out.children = [] := List.eq_nil_of_length_eq_zero (by omega)
      rw [hnil]
      rfl
    exact ⟨(hel.ns q hne hnext).trans hns, (hel.child q hne).trans hchild,
      (hel.report q hne hnext).trans hreport⟩
  · refine hinv.uts.step i (fun q => (hinv.rooted.exist q).1)
      (fun hi => (hgoes.stepped.moved (hcon hi)).1) (fun q hq hne => by rw [hsame q hq hne])
      fun q hq => ?_
    exact (container_advance hadv hgoes hq).imp_right fun hns => by rw [hns]
  · refine hinv.mnt.step i (fun q => (hinv.rooted.exist q).2.1)
      (fun hi => (hgoes.stepped.moved (hcon hi)).2) (fun q hq hne => by rw [hsame q hq hne])
      fun q hq => ?_
    exact (container_advance hadv hgoes hq).imp_right fun hns => by rw [hns]

end Advance

/-- A thread of the listener is killed. -/
theorem Holds.killed {tags : ℕ → Option Tag} {w : World} {q : ℕ} {t : Task Tag Frame Result}
    (hst : Holds leak h ls tags w q t) (hthread : t.tag.isThread) :
    Holds leak h ls tags w q { t with frames := [] } := by
  obtain ⟨tag, fs, r⟩ := t
  cases tag with
  | call c =>
    have hcall : Calling ls tags w q c fs r := hst
    exact ⟨hcall.ns, .inr rfl, hcall.invoked, fun f hf => absurd hf List.not_mem_nil, hcall.child,
      hcall.result⟩
  | pinner path => exact Pinning.after
  | dialer path =>
    have hdial : Dialing w q path fs := hst
    cases hdial with
    | enter hnone => exact Dialing.after fun n hn => by rw [hnone] at hn; cases hn
    | connect hnone => exact Dialing.after fun n hn => by rw [hnone] at hn; cases hn
    | after hdone => exact Dialing.after hdone
  | container j id sb info => cases hthread
  | exec j pid path mnt uts => cases hthread
  | foreign => cases hthread

/-- Processes end, and threads of the listener. -/
theorem Inv.calm {l : Label} (hinv : Inv leak h ls s) (hcalm : Calm s.shared s'.shared)
    (hlen : s'.tasks.length = s.tasks.length)
    (htasks : ∀ (q : ℕ) (t' : Task Tag Frame Result), s'.tasks[q]? = some t' →
      ∃ t, s.tasks[q]? = some t ∧ (t' = t ∨ t.tag.isThread ∧ t' = { t with frames := [] })) :
    Inv leak h (ls ++ [l]) s' := by
  have htag : ∀ q τ, s'.tag? q = some τ → s.tag? q = some τ := fun q τ hτ => by
    obtain ⟨t', ht', rfl⟩ := tag?_eq_some hτ
    obtain ⟨t, ht, hwhich⟩ := htasks q t' ht'
    rw [State.tag?, ht, Option.map_some]
    rcases hwhich with rfl | ⟨-, rfl⟩ <;> rfl
  have htag' : ∀ q τ, s.tag? q = some τ → s'.tag? q = some τ := fun q τ hτ => by
    have hq : q < s'.tasks.length := hlen ▸ lt_of_tag? hτ
    have hsome : s'.tag? q = some (s'.tasks[q]).tag := by
      rw [State.tag?, List.getElem?_eq_getElem hq, Option.map_some]
    rw [hsome, ← htag q _ hsome, hτ]
  have hcon : ∀ q, s'.container q → s.container q := fun q ⟨τ, hτ, hτcon⟩ => ⟨τ, htag q τ hτ, hτcon⟩
  have hst : Stepped leak (ls ++ [l]) .foreign 0 0 false s.shared s'.shared :=
    hcalm.stepped hinv.rooted l
  refine ⟨hinv.rooted.step hst, fun q t' ht' => ?_,
    fun q hq => ?_, fun q q' hq hq' => ?_, fun q q' hq hq' => ?_⟩
  · obtain ⟨t, ht, hwhich⟩ := htasks q t' ht'
    have hel : Elsewhere leak False (q + 1) s.tasks.length false s.shared s'.shared :=
      hcalm.elsewhere
    have hold := (hinv.holds q t ht).other hinv.rooted hel (Nat.ne_of_lt (Nat.lt_succ_self q))
      (List.getElem?_eq_some_iff.mp ht).1 htag' (fun q τ hτ => lt_of_tag? hτ)
      (fun _ hmine => hmine.elim) l
    rcases hwhich with rfl | ⟨hthread, rfl⟩
    · exact hold
    · exact hold.killed hthread
  · rw [hcalm.ns, hcalm.child, hcalm.report]
    exact hinv.unborn q (hlen ▸ hq)
  · rw [hcalm.ns]
    exact hinv.uts q q' (hcon q hq) (hcon q' hq')
  · rw [hcalm.ns]
    exact hinv.mnt q q' (hcon q hq) (hcon q' hq')

theorem Inv.step {l : Label} (hinv : Inv leak h ls s) (hrem : leak ∨ remounts s l)
    (hstep : step s l = some s') : Inv leak h (ls ++ [l]) s' := by
  cases l with
  | invoke c =>
    obtain rfl := Option.some.inj hstep
    exact hinv.invoke c
  | step i o =>
    obtain ⟨t, f, k, out, hadv⟩ := Pool.advance_eq_some hstep
    exact hinv.advance hrem hadv
  | exit i =>
    simp only [Namespaces.step] at hstep
    split at hstep
    · obtain rfl := Option.some.inj hstep
      exact hinv.calm ⟨rfl, rfl, rfl, rfl, rfl, rfl, rfl, fun _ hp => hp⟩ rfl
        fun q t ht => ⟨t, ht, .inl rfl⟩
    · cases hstep
  | foreign pid ns =>
    simp only [Namespaces.step] at hstep
    split at hstep
    · rename_i hguard
      obtain rfl := Option.some.inj hstep
      exact hinv.foreign hguard.2.2
    · cases hstep
  | crash =>
    obtain rfl := Option.some.inj hstep
    refine hinv.calm (.refl s.shared) (List.length_map _) fun q t' ht' => ?_
    rw [List.getElem?_map] at ht'
    obtain ⟨t, ht, rfl⟩ := Option.map_eq_some_iff.mp ht'
    refine ⟨t, ht, ?_⟩
    split
    · rename_i hthread
      exact .inr ⟨hthread, rfl⟩
    · exact .inl rfl

theorem inv_run (hls : leak ∨ Along step remounts (init h) ls)
    (hrun : run step (init h) ls = some s) : Inv leak h ls s := by
  refine invariant_along_labels (P := fun s l => leak ∨ remounts s l)
    (fun ls s l s' hinv hrem hstep => hinv.step hrem hstep) (.init h) ?_ hrun
  rcases hls with hleak | hls
  · exact (Along.trivial _ _).mono fun _ _ _ => .inl hleak
  · exact hls.mono fun _ _ hrem => .inr hrem

/-! ## What runs where -/

/-- The process `q` executes its program. -/
def State.Runs (s : State) (q : ℕ) (τ : Tag) : Prop := s.tag? q = some τ ∧ s.shared.executes q

/-- The hostname that the process `q` sees. -/
def World.hostnameOf (w : World) (q : ℕ) : Option String :=
  w.hostnames[(w.ns q).uts]?.map Space.shows

/-- The `/etc/resolv.conf` that the process `q` sees, the host's if nothing is mounted over it. -/
def World.resolvConfOf (w : World) (q : ℕ) : Option (Option String) :=
  w.mounts[(w.ns q).mnt]?.map Space.shows

/-- The network namespace `n` is the host's, or was made for the file `path`. -/
def World.NetOf (w : World) (n : ℕ) : Option String → Prop
  | none => n = 0
  | some path => w.nets[n]? = some (some path)

/-- The file of the network namespace that the process of a container or of an exec has to join. -/
def Tag.netnsPath : Tag → Option (Option String)
  | .container _ _ _ info => some info.netnsPath
  | .exec _ _ path _ _ => some path
  | _ => none

theorem NetStage.netOf {w : World} {q : ℕ} {path : Option String} (hst : NetStage w q path []) :
    w.NetOf (w.ns q).net path := by
  cases hst with
  | joined path hnet => exact hnet
  | host hzero => exact hzero

theorem Inv.entered {q j : ℕ} {id : ContainerId} {sb : SandboxId} {info : SandboxInfo}
    (hinv : Inv leak h ls s) (hq : s.Runs q (.container j id sb info)) :
    UtsStage h ls s.shared q info.hostname [] ∧ MntStage leak h ls s.shared q j sb info [] ∧
      NetStage s.shared q info.netnsPath [] := by
  obtain ⟨hτ, hexecutes⟩ := hq
  obtain ⟨⟨tag, fs, r⟩, ht, rfl⟩ := tag?_eq_some hτ
  have hst : Entering leak h ls s.shared q j sb info fs := hinv.holds q _ ht
  cases hst with
  | before u m n hnone =>
    rw [World.executes, hnone] at hexecutes
    cases hexecutes
  | after hdone => exact (hdone q hexecutes).2

theorem Inv.joined {q j pid mnt uts : ℕ} {path : Option String} (hinv : Inv leak h ls s)
    (hq : s.Runs q (.exec j pid path mnt uts)) :
    (s.shared.ns q).mnt = mnt ∧ (s.shared.ns q).uts = uts ∧ NetStage s.shared q path [] := by
  obtain ⟨hτ, hexecutes⟩ := hq
  obtain ⟨⟨tag, fs, r⟩, ht, rfl⟩ := tag?_eq_some hτ
  have hst : Joining s.shared q path mnt uts fs := (hinv.holds q _ ht).2
  have hnot : s.shared.report q ≠ none := by
    rw [show s.shared.report q = some (.ok q) from hexecutes]
    exact Option.some_ne_none _
  cases hst with
  | mnt n hnone => exact absurd hnone hnot
  | uts n e hnone => exact absurd hnone hnot
  | net n hnone => exact absurd hnone hnot
  | after hdone => exact (hdone q hexecutes).2

theorem Inv.calling {j : ℕ} {c : Call} {t : Task Tag Frame Result} (hinv : Inv leak h ls s)
    (ht : s.tasks[j]? = some t) (htag : t.tag = .call c) :
    Calling ls s.tag? s.shared j c t.frames t.result := by
  have hholds := hinv.holds j t ht
  rwa [Holds, htag] at hholds

/-- A call that has succeeded in starting a process has started its own, and it runs. -/
theorem Inv.started {j q : ℕ} {c : Call} {t : Task Tag Frame Result} (hinv : Inv leak h ls s)
    (ht : s.tasks[j]? = some t) (htag : t.tag = .call c)
    (hres : t.result = some (.ok (.running q))) : ∃ τ, Child j c τ ∧ s.Runs q τ := by
  cases (hinv.calling ht htag).result _ hres with
  | running c τ q hchild hτ hexecutes => exact ⟨τ, hchild, hτ, hexecutes⟩

/-! ### Names -/

/-- The names of the host and of the containers. -/
structure Named (h : Host) (ls : List Label) (s : State) : Prop where
  host : s.shared.hostnames[0]? = some ⟨h.hostname, none⟩
  started : ∀ (j q : ℕ) c (t : Task Tag Frame Result), s.tasks[j]? = some t → t.tag = .call c →
    t.result = some (.ok (.running q)) → ∃ τ, Child j c τ ∧ s.Runs q τ
  hostname : ∀ q j id sb info, s.Runs q (.container j id sb info) →
    s.shared.hostnameOf q = some info.hostname ∧ (s.shared.ns q).uts ≠ 0 ∨
      s.shared.hostnameOf q = some h.hostname ∧ (info.hostname = "" ∨ Failed ls q)
  apart : ∀ q q' τ τ', s.Runs q τ → s.Runs q' τ' → τ.isContainer → τ'.isContainer → q ≠ q' →
    (s.shared.ns q).uts = (s.shared.ns q').uts → (s.shared.ns q).uts = 0

/-- **A container has a name of its own, and the host keeps its own.** -/
theorem containers_named (hrun : run step (init h) ls = some s) : Named h ls s := by
  have hinv : Inv True h ls s := inv_run (.inl True.intro) hrun
  refine ⟨hinv.rooted.hostname, fun j q c t => hinv.started, fun q j id sb info hq => ?_,
    fun q q' τ τ' hq hq' hcon hcon' => hinv.uts q q' ⟨τ, hq.1, hcon⟩ ⟨τ', hq'.1, hcon'⟩⟩
  have hstage := (hinv.entered hq).1
  unfold World.hostnameOf
  cases hstage with
  | named hne hshows => exact .inl ⟨by rw [hshows, Option.map_some], hne⟩
  | kept hshows hwhy => exact .inr ⟨by rw [hshows, Option.map_some], hwhy⟩

def webNetns : String := "/run/netns/web"

def webInfo : SandboxInfo := ⟨"", some ⟨["10.0.0.10"], [], []⟩, "web", some webNetns⟩

def node : Host := ⟨"node", some 1⟩

/-- A network namespace is made, and a container is about to be spawned. -/
def spawnedRun : List Label :=
  [.invoke (.create "web"), .step 0 {}, .step 0 {}, .step 1 {}, .step 1 {}, .step 0 {},
    .invoke (.startContainer ⟨"ct-1"⟩ ⟨"sb-1"⟩ webInfo), .step 2 {}, .step 2 {},
    .step 2 { pid := 100 }]

def enteredRun : List Label := spawnedRun ++ List.replicate 7 (.step 3 {}) ++ [Label.step 2 {}]

/-- An exec in the container, and a connection to it. -/
def visit : List Label :=
  [.invoke (.exec .execSync ⟨"ct-1"⟩ 100 (some webNetns)), .step 4 {}, .step 4 {}, .step 4 {},
    .step 4 { pid := 101 }, .step 5 {}, .step 5 {}, .step 5 {}, .step 5 {}, .step 4 {},
    .invoke (.dial (some webNetns)), .step 6 {}, .step 7 {}, .step 7 {}, .step 6 {}]

def visitedRun : List Label := enteredRun ++ visit

theorem exists_visitedRun : ∃ s, run step (init node) visitedRun = some s :=
  Option.isSome_iff_exists.mp (by decide +kernel)

theorem containers_named_visitedRun :
    ∃ s, run step (init node) visitedRun = some s ∧ Named node visitedRun s := by
  obtain ⟨s, hrun⟩ := exists_visitedRun
  exact ⟨s, hrun, containers_named hrun⟩

/-! ### Networks -/

/-- The network namespaces of the processes and of the connections. -/
structure Networked (s : State) : Prop where
  host : s.shared.nets[0]? = some none
  threads : ∀ (j : ℕ) c (t : Task Tag Frame Result), s.tasks[j]? = some t → t.tag = .call c →
    s.shared.ns j = {}
  processes : ∀ q τ path, s.Runs q τ → τ.netnsPath = some path →
    s.shared.NetOf (s.shared.ns q).net path
  connections : ∀ (j n : ℕ) path (t : Task Tag Frame Result), s.tasks[j]? = some t →
    t.tag = .call (.dial path) → t.result = some (.ok (.connected n)) → s.shared.NetOf n path

theorem Inv.networked (hinv : Inv leak h ls s) : Networked s := by
  refine ⟨hinv.rooted.nets, fun j c t ht htag => (hinv.calling ht htag).ns,
    fun q τ path hq hpath => ?_, fun j n path t ht htag hres => ?_⟩
  · cases τ with
    | container j id sb info =>
      obtain rfl := Option.some.inj hpath
      exact (hinv.entered hq).2.2.netOf
    | exec j pid path mnt uts =>
      obtain rfl := Option.some.inj hpath
      exact (hinv.joined hq).2.2.netOf
    | _ => cases hpath
  · cases (hinv.calling ht htag).result _ hres with
    | connected path n hnet => exact hnet
    | direct => rfl

/-- **Nothing runs in a network namespace but the one it was to join.** -/
theorem networks_joined (hrun : run step (init h) ls = some s) : Networked s := by
  have hinv : Inv True h ls s := inv_run (.inl True.intro) hrun
  exact hinv.networked

theorem networks_joined_visitedRun :
    ∃ s, run step (init node) visitedRun = some s ∧ Networked s := by
  obtain ⟨s, hrun⟩ := exists_visitedRun
  exact ⟨s, hrun, networks_joined hrun⟩

/-! ### Mounts -/

/-- What is mounted over the `/etc/resolv.conf` of the host and of the containers. -/
structure Mounted (h : Host) (ls : List Label) (s : State) : Prop where
  host : s.shared.mounts[0]? = some ⟨none, h.peers⟩
  resolvConf : ∀ q j id sb info, s.Runs q (.container j id sb info) →
    (∃ text, s.shared.resolvConfOf q = some (some text) ∧ Written ls sb text ∧
        (s.shared.ns q).mnt ≠ 0) ∨
      s.shared.resolvConfOf q = some none ∧ (info.dns = none ∨ Failed ls j ∨ Failed ls q)
  apart : ∀ q q' τ τ', s.Runs q τ → s.Runs q' τ' → τ.isContainer → τ'.isContainer → q ≠ q' →
    (s.shared.ns q).mnt = (s.shared.ns q').mnt → (s.shared.ns q).mnt = 0

/-- **A container has the `resolv.conf` of its sandbox, and the host keeps its own.** -/
theorem resolv_confs_private (hls : Along step remounts (init h) ls)
    (hrun : run step (init h) ls = some s) : Mounted h ls s := by
  have hinv : Inv False h ls s := inv_run (.inr hls) hrun
  refine ⟨hinv.rooted.resolvConf.resolve_left id, fun q j id sb info hq => ?_,
    fun q q' τ τ' hq hq' hcon hcon' => hinv.mnt q q' ⟨τ, hq.1, hcon⟩ ⟨τ', hq'.1, hcon'⟩⟩
  have hstage := (hinv.entered hq).2.1
  unfold World.resolvConfOf
  cases hstage with
  | bound text hwrote hne hshows =>
    rw [hshows.resolve_left not_false]
    exact .inl ⟨text, rfl, hwrote, hne⟩
  | kept hwhy hshows =>
    obtain ⟨p, hshows⟩ := hshows.resolve_left not_false
    rw [hshows]
    exact .inr ⟨rfl, hwhy⟩

theorem resolv_confs_private_visitedRun : ∃ s, Along step remounts (init node) visitedRun ∧
    run step (init node) visitedRun = some s ∧ Mounted node visitedRun s := by
  obtain ⟨s, hrun⟩ := exists_visitedRun
  have hls : Along step remounts (init node) visitedRun := by decide +kernel
  exact ⟨s, hls, hrun, resolv_confs_private hls hrun⟩

/-- The private remount of the container fails. -/
def leakedRun : List Label :=
  spawnedRun ++ [Label.step 3 {}, .step 3 {}, .step 3 {},
    .step 3 { fault := some "Operation not permitted (os error 1)" }, .step 3 {}]

/-- **Without the private remount the host gets the `resolv.conf` of a container.** -/
theorem host_overmounted : (run step (init node) leakedRun).map (fun s => s.shared.mounts[0]?) =
    some (some ⟨some "nameserver 10.0.0.10\n", some 1⟩) := by decide +kernel

end Runs

end LightrCri.Fake.Namespaces
