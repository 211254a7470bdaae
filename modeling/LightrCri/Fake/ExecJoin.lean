import LightrCri.Fake.Isolation

/-!
# An exec is in its container

`join_container_mnt_uts` opens the namespaces of the process that has the pid of the container's
record when it looks. While the container's process has this pid, that is the process of the
container, so an exec that was called since it runs is in the same UTS and mount namespaces
(`exec_joins_container`): it sees the container's name and `resolv.conf`, whatever runs in between.
-/

namespace LightrCri.Fake.Namespaces

open Backend Foundations Function

/-- What the frame has opened are the namespaces `ns`. -/
def Frame.aims (ns : Nsproxy) : Frame → Prop
  | .openUts _ _ _ _ mnt => mnt = ns.mnt
  | .openNet _ _ c | .spawn c => ∃ j pid path, c.tag = .exec j pid path ns.mnt ns.uts
  | _ => True

/-- The process `q` is a container's and is in the namespaces `ns`. While it has the number `pid`,
the tasks from `n` on that exec in the process `pid` are to join these. -/
structure Targets (q pid n : ℕ) (ns : Nsproxy) (s : State) : Prop where
  runs : ∃ τ, s.Runs q τ ∧ τ.isContainer
  place : s.shared.ns q = ns
  pids : (s.shared.pids.map Prod.fst).Nodup
  calls : (pid, q) ∈ s.shared.pids → ∀ (j : ℕ) v id path (t : Task Tag Frame Result), n ≤ j →
    s.tasks[j]? = some t → t.tag = .call (.exec v id pid path) → ∀ f ∈ t.frames, f.aims ns
  execs : (pid, q) ∈ s.shared.pids → ∀ e j path mnt uts, n ≤ j →
    s.tag? e = some (.exec j pid path mnt uts) → mnt = ns.mnt ∧ uts = ns.uts

variable {i next : ℕ} {o : Oracle} {f : Frame} {w w' : World} {out : Out}

/-- A system call of a child ends at most the child. -/
theorem Op.pids {op : Op} (hex : op.exec i o w = (w', out)) :
    w'.pids.Sublist w.pids ∧ out.children = [] := by
  cases op <;> simp only [Op.exec] at hex <;> split at hex <;> obtain ⟨rfl, rfl⟩ := Prod.mk.inj hex
  all_goals
    refine ⟨?_, rfl⟩
    first
      | exact List.Sublist.refl _
      | exact List.filter_sublist

/-- What a step does to the processes. -/
theorem exec_pids (hex : exec i next o f w = some (w', out)) :
    w'.pids.Sublist w.pids ∨ ∃ pid, w.process pid = none ∧ w'.pids = (pid, next) :: w.pids := by
  cases f with
  | op op => exact .inl (Op.pids (Option.some.inj hex)).1
  | spawn c =>
    simp only [exec] at hex
    split at hex
    · obtain ⟨rfl, rfl⟩ := Prod.mk.inj (Option.some.inj hex)
      exact .inl (List.Sublist.refl _)
    · split at hex
      · rename_i hpid
        obtain ⟨rfl, rfl⟩ := Prod.mk.inj (Option.some.inj hex)
        exact .inr ⟨o.pid, hpid.2, rfl⟩
      · cases hex
  | openNet failed path c =>
    cases path <;> simp only [exec] at hex
    all_goals
      repeat' split at hex
      all_goals
        obtain ⟨rfl, rfl⟩ := Prod.mk.inj (Option.some.inj hex)
        exact .inl (List.Sublist.refl _)
  | sweepOne paths n =>
    cases paths <;> simp only [exec] at hex
    all_goals
      repeat' split at hex
      all_goals
        obtain ⟨rfl, rfl⟩ := Prod.mk.inj (Option.some.inj hex)
        exact .inl (List.Sublist.refl _)
  | _ =>
    simp only [exec] at hex
    repeat' split at hex
    all_goals cases hex
    all_goals
      refine .inl ?_
      first
        | exact List.Sublist.refl _
        | exact List.filter_sublist

/-- What a step starts. -/
theorem exec_children {u : Task Tag Frame Result} (hex : exec i next o f w = some (w', out))
    (hu : u ∈ out.children) :
    (∃ c, f = .spawn c ∧ u.tag = c.tag) ∨ ∃ path, u.tag = .pinner path ∨ u.tag = .dialer path := by
  cases f with
  | op op =>
    rw [(Op.pids (Option.some.inj hex)).2] at hu
    cases hu
  | spawn c =>
    simp only [exec] at hex
    repeat' split at hex
    all_goals cases hex
    · cases hu
    · obtain rfl := List.mem_singleton.mp hu
      exact .inl ⟨c, rfl, rfl⟩
  | createThread path =>
    cases hex
    obtain rfl := List.mem_singleton.mp hu
    exact .inr ⟨path, .inl rfl⟩
  | dialThread path =>
    cases hex
    obtain rfl := List.mem_singleton.mp hu
    exact .inr ⟨path, .inr rfl⟩
  | openNet failed path c =>
    cases path <;> simp only [exec] at hex
    all_goals
      repeat' split at hex
      all_goals cases hex
      all_goals cases hu
  | sweepOne paths n =>
    cases paths <;> simp only [exec] at hex
    all_goals
      repeat' split at hex
      all_goals cases hex
      all_goals cases hu
  | _ =>
    simp only [exec] at hex
    repeat' split at hex
    all_goals cases hex
    all_goals cases hu

theorem process_of_mem {pid q : ℕ} (hnodup : (w.pids.map Prod.fst).Nodup)
    (hmem : (pid, q) ∈ w.pids) : w.process pid = some q := by
  unfold World.process
  revert hnodup hmem
  generalize w.pids = ps
  intro hnodup hmem
  induction ps with
  | nil => cases hmem
  | cons p ps ih =>
    rw [List.map_cons, List.nodup_cons] at hnodup
    rcases List.mem_cons.mp hmem with rfl | hmem
    · simp
    · have hne : p.1 ≠ pid := fun heq => hnodup.1 (List.mem_map.mpr ⟨_, hmem, heq.symm⟩)
      rw [List.find?_cons_of_neg (by simpa using hne)]
      exact ih hnodup.2 hmem

theorem notMem_of_process {pid : ℕ} (hnone : w.process pid = none) : pid ∉ w.pids.map Prod.fst := by
  intro hmem
  obtain ⟨p, hp, rfl⟩ := List.mem_map.mp hmem
  have hfind := List.find?_eq_none.mp (Option.map_eq_none_iff.mp hnone) p hp
  simp at hfind

/-- What an exec opens while the process `q` has its pid are the namespaces of `q`. -/
theorem aims_pushed {ls : List Label} {v : ExecCall} {id : ContainerId} {pid q : ℕ}
    {path : Option String} {ns : Nsproxy} (hex : exec i next o f w = some (w', out))
    (hpend : Pending ls w i (.exec v id pid path) f) (haims : f.aims ns)
    (hproc : w.process pid = some q) (hns : w.ns q = ns) : ∀ g ∈ out.pushed, g.aims ns := by
  intro g hg
  cases hpend with
  | openMnt =>
    simp only [exec, hproc] at hex
    repeat' split at hex
    · cases hex
      cases hg
    · rename_i q' hfault hq
      cases hex
      obtain rfl := List.mem_singleton.mp hg
      obtain rfl := Option.some.inj hq
      exact congrArg Nsproxy.mnt hns
    · cases hex
      cases hg
  | openUts _ _ _ _ mnt hmnt =>
    simp only [exec, hproc] at hex
    split at hex
    · rename_i q' hfault hq
      cases hex
      obtain rfl := List.mem_singleton.mp hg
      obtain rfl := Option.some.inj hq
      exact ⟨i, pid, path, by rw [hns, show mnt = ns.mnt from haims]⟩
    · cases hex
      cases hg
  | openNet _ failed path' c hmade =>
    cases path' <;> simp only [exec] at hex
    · cases hex
      rcases List.mem_pair.mp hg with rfl | rfl
      · exact haims
      · exact True.intro
    · repeat' split at hex
      · cases hex
        cases hg
      · cases hex
        rcases List.mem_pair.mp hg with rfl | rfl
        · exact haims
        · exact True.intro
      · cases hex
        cases hg
  | spawn _ _ ops net c hmade hnet hops =>
    simp only [exec] at hex
    repeat' split at hex
    · cases hex
      cases hg
    · cases hex
      cases hg
    · cases hex
  | spawned _ failed hspawns =>
    simp only [exec] at hex
    split at hex
    · cases hex
    · cases hex
      cases hg
    · cases hex
      cases hg

variable {h : Host} {ls : List Label} {s s' : State} {q pid n : ℕ} {ns : Nsproxy}

/-- A process that executes its program makes no steps any more. -/
theorem Inv.frames_container {leak : Prop} {τ : Tag} {t : Task Tag Frame Result}
    (hinv : Inv leak h ls s) (hq : s.Runs q τ) (hcon : τ.isContainer) (ht : s.tasks[q]? = some t) :
    t.frames = [] := by
  obtain ⟨hτ, hexecutes⟩ := hq
  obtain ⟨tag, fs, r⟩ := t
  obtain rfl : tag = τ := by
    rw [State.tag?, ht, Option.map_some] at hτ
    exact Option.some.inj hτ
  cases tag with
  | container j id sb info =>
    have hst : Entering leak h ls s.shared q j sb info fs := hinv.holds q _ ht
    cases hst with
    | before u m n hnone =>
      rw [World.executes, hnone] at hexecutes
      cases hexecutes
    | after hdone => rfl
  | _ => cases hcon

/-- Only a call spawns, and what it has made for itself. -/
theorem Inv.spawning {leak : Prop} {t : Task Tag Frame Result} {c : Command} {k : List Frame}
    (hinv : Inv leak h ls s) (ht : s.tasks[i]? = some t) (hfs : t.frames = .spawn c :: k) :
    ∃ call ops path, t.tag = .call call ∧ Made ls s.shared i call c.tag ops path := by
  have hops : ∀ ops : List Op, ops.map Frame.op ≠ .spawn c :: k := fun ops heq => by
    have hmem : Frame.spawn c ∈ ops.map Frame.op := by rw [heq]; exact List.mem_cons_self
    obtain ⟨op, -, hop⟩ := List.mem_map.mp hmem
    cases hop
  have hholds := hinv.holds i t ht
  obtain ⟨tag, fs, r⟩ := t
  obtain rfl : fs = .spawn c :: k := hfs
  cases tag with
  | call call =>
    have hcall : Calling ls s.tag? s.shared i call (.spawn c :: k) r := hholds
    cases hcall.frames _ List.mem_cons_self with
    | spawn _ path ops net _ hmade => exact ⟨call, ops, path, rfl, hmade⟩
  | container j id sb info =>
    have hst : Entering leak h ls s.shared i j sb info (.spawn c :: k) := hholds
    obtain ⟨-, u, m, n, -, -, -, heq⟩ := hst.cons
    exact absurd heq (hops _)
  | exec j pid path mnt uts =>
    have hst : Joining s.shared i path mnt uts (.spawn c :: k) := hholds.2
    generalize hgen : Frame.spawn c :: k = fs at hst
    cases hst with
    | mnt n => exact absurd hgen.symm (hops (_ :: (n ++ [Op.execve])))
    | uts n e => exact absurd hgen.symm (hops (_ :: (n ++ [Op.execve])))
    | net n => exact absurd hgen.symm (hops _)
    | after hdone => cases hgen
  | pinner path =>
    have hst : Pinning s.shared i path (.spawn c :: k) := hholds
    cases hst
  | dialer path =>
    have hst : Dialing s.shared i path (.spawn c :: k) := hholds
    cases hst
  | foreign => cases hholds

/-- **While a process has its pid, execs are after its namespaces.** -/
theorem Targets.advance {t : Task Tag Frame Result} {k : List Frame} (htar : Targets q pid n ns s)
    (hinv : Inv True h ls s)
    (hadv : Pool.Advance exec s i o s' t f k out) : Targets q pid n ns s' := by
  obtain ⟨τ, hruns, hcon⟩ := htar.runs
  have hgoes := hinv.goes (.inl True.intro) hadv
  have hel := hgoes.stepped.elsewhere
  have hqlt := lt_of_tag? hruns.1
  have hqi : q ≠ i := by
    rintro rfl
    have hnil := hinv.frames_container hruns hcon hadv.task
    rw [hadv.frames] at hnil
    cases hnil
  have hnext : q = s.tasks.length → (!out.children.isEmpty) = false := fun heq =>
    absurd heq (Nat.ne_of_lt hqlt)
  have hpids := exec_pids hadv.exec
  have hback : (pid, q) ∈ s'.shared.pids → (pid, q) ∈ s.shared.pids := fun hmem => by
    rcases hpids with hsub | ⟨pid', -, hpids⟩
    · exact hsub.subset hmem
    · rw [hpids] at hmem
      rcases List.mem_cons.mp hmem with heq | hmem
      · exact absurd (Prod.mk.inj heq).2 (Nat.ne_of_lt hqlt)
      · exact hmem
  refine ⟨⟨τ, ⟨tag?_advance hadv hruns.1, ?_⟩, hcon⟩, ?_, ?_, fun hmem => ?_, fun hmem => ?_⟩
  · exact (hel.report q hqi hnext).trans hruns.2
  · exact (hel.ns q hqi hnext).trans htar.place
  · rcases hpids with hsub | ⟨pid', hnone, hpids⟩
    · exact htar.pids.sublist (hsub.map _)
    · rw [hpids, List.map_cons, List.nodup_cons]
      exact ⟨notMem_of_process hnone, htar.pids⟩
  · have hcalls := htar.calls (hback hmem)
    intro j v id path u hj hu htag g hg
    rcases hadv.cases hu with ⟨rfl, rfl⟩ | ⟨-, hu⟩ | ⟨-, hu⟩
    · rw [Task.resume_tag] at htag
      have haims := hcalls j v id path t hj hadv.task htag
      rw [hadv.frames] at haims
      rcases Task.mem_resume hg with hg | hg
      · have hcall := hinv.calling hadv.task htag
        rw [hadv.frames] at hcall
        exact aims_pushed hadv.exec (hcall.frames f List.mem_cons_self) (haims f List.mem_cons_self)
          (process_of_mem htar.pids (hback hmem)) htar.place g hg
      · exact haims g (List.mem_cons_of_mem _ hg)
    · exact hcalls j v id path u hj hu htag g hg
    · rcases exec_children hadv.exec hu with ⟨c, rfl, hctag⟩ | ⟨path, hctag | hctag⟩
      · obtain ⟨call, ops, path', -, hmade⟩ := hinv.spawning hadv.task hadv.frames
        rw [← hctag, htag] at hmade
        cases hmade
      · rw [htag] at hctag
        cases hctag
      · rw [htag] at hctag
        cases hctag
  · have hexecs := htar.execs (hback hmem)
    intro e j path mnt uts hj he
    obtain ⟨u, hu, htag⟩ := tag?_eq_some he
    rcases hadv.cases hu with ⟨rfl, rfl⟩ | ⟨-, hu⟩ | ⟨-, hu⟩
    · rw [Task.resume_tag] at htag
      exact hexecs e j path mnt uts hj (by rw [State.tag?, hadv.task, Option.map_some, htag])
    · exact hexecs e j path mnt uts hj (by rw [State.tag?, hu, Option.map_some, htag])
    · rcases exec_children hadv.exec hu with ⟨c, rfl, hctag⟩ | ⟨path, hctag | hctag⟩
      · obtain ⟨call, ops, path', hcall, hmade⟩ := hinv.spawning hadv.task hadv.frames
        rw [← hctag, htag] at hmade
        cases hmade with
        | exec v id =>
          have haims := htar.calls (hback hmem) i v id path t hj hadv.task hcall (.spawn c)
            (by rw [hadv.frames]; exact List.mem_cons_self)
          obtain ⟨j', pid', path', hτ⟩ := haims
          rw [← hctag, htag] at hτ
          cases hτ
          exact ⟨rfl, rfl⟩
      · rw [htag] at hctag
        cases hctag
      · rw [htag] at hctag
        cases hctag

/-- A step that adds a task which is not an exec, and processes that are not `q`. -/
theorem Targets.extend {t : Task Tag Frame Result} (htar : Targets q pid n ns s)
    (hq : q < s.tasks.length) (hns : w.ns q = s.shared.ns q)
    (hreport : w.report q = s.shared.report q) (hpids : (w.pids.map Prod.fst).Nodup)
    (hback : (pid, q) ∈ w.pids → (pid, q) ∈ s.shared.pids)
    (hcalls : ∀ v id path, t.tag = .call (.exec v id pid path) → ∀ f ∈ t.frames, f.aims ns)
    (hexecs : ∀ j path mnt uts, t.tag ≠ .exec j pid path mnt uts) :
    Targets q pid n ns ⟨w, s.tasks ++ [t]⟩ := by
  obtain ⟨τ, hruns, hcon⟩ := htar.runs
  have hlast : ∀ (j : ℕ) (u : Task Tag Frame Result), (s.tasks ++ [t])[j]? = some u →
      s.tasks[j]? = some u ∨ u = t := fun j u hu => by
    rw [List.getElem?_append] at hu
    split at hu
    · exact .inl hu
    · exact .inr (List.mem_singleton.mp (List.mem_of_getElem? hu))
  refine ⟨⟨τ, ⟨?_, hreport.trans hruns.2⟩, hcon⟩, hns.trans htar.place, hpids,
    fun hmem j v id path u hj hu htag => ?_, fun hmem e j path mnt uts hj he => ?_⟩
  · rw [State.tag?, List.getElem?_append_left hq]
    exact hruns.1
  · rcases hlast j u hu with hu | rfl
    · exact htar.calls (hback hmem) j v id path u hj hu htag
    · exact hcalls v id path htag
  · obtain ⟨u, hu, htag⟩ := tag?_eq_some he
    rcases hlast e u hu with hu | rfl
    · exact htar.execs (hback hmem) e j path mnt uts hj
        (by rw [State.tag?, hu, Option.map_some, htag])
    · exact absurd htag (hexecs j path mnt uts)

theorem Targets.step {l : Label} (htar : Targets q pid n ns s) (hinv : Inv True h ls s)
    (hstep : step s l = some s') : Targets q pid n ns s' := by
  obtain ⟨τ, hruns, hcon⟩ := htar.runs
  have hq := lt_of_tag? hruns.1
  cases l with
  | invoke c =>
    obtain rfl := Option.some.inj hstep
    refine htar.extend hq rfl rfl htar.pids (fun hmem => hmem) (fun v id path htag f hf => ?_)
      fun _ _ _ _ htag => by cases htag
    cases htag
    obtain rfl := List.mem_singleton.mp hf
    exact True.intro
  | step i o =>
    obtain ⟨t, f, k, out, hadv⟩ := Pool.advance_eq_some hstep
    exact htar.advance hinv hadv
  | exit i =>
    simp only [Namespaces.step] at hstep
    split at hstep
    · obtain rfl := Option.some.inj hstep
      have hsub : (s.shared.exit i).pids.Sublist s.shared.pids := List.filter_sublist
      exact ⟨⟨τ, hruns, hcon⟩, htar.place, htar.pids.sublist (hsub.map _),
        fun hmem => htar.calls (hsub.subset hmem), fun hmem => htar.execs (hsub.subset hmem)⟩
    · cases hstep
  | foreign pid' ns' =>
    simp only [Namespaces.step] at hstep
    split at hstep
    · rename_i hguard
      obtain rfl := Option.some.inj hstep
      have hne : q ≠ s.tasks.length := Nat.ne_of_lt hq
      refine htar.extend hq ?_ ?_ ?_ (fun hmem => ?_) (fun _ _ _ htag => by cases htag)
        fun _ _ _ _ htag => by cases htag
      · simp [World.tell, World.setNs, hne]
      · simp [World.tell, World.setNs, hne]
      · rw [List.map_cons, List.nodup_cons]
        exact ⟨notMem_of_process hguard.2.1, htar.pids⟩
      · rcases List.mem_cons.mp hmem with heq | hmem
        · exact absurd (Prod.mk.inj heq).2 hne
        · exact hmem
    · cases hstep
  | crash =>
    obtain rfl := Option.some.inj hstep
    have htag : ∀ (e : ℕ),
        (s.tasks.map fun t => if t.tag.isThread then { t with frames := [] } else t)[e]?.map
          Task.tag = s.tag? e := fun e => by
      rw [List.getElem?_map, Option.map_map, State.tag?]
      congr 1
      funext t
      simp only [Function.comp_apply]
      split <;> rfl
    refine ⟨⟨τ, ⟨(htag q).trans hruns.1, hruns.2⟩, hcon⟩, htar.place, htar.pids,
      fun hmem j v id path u hj hu hcall f hf => ?_,
      fun hmem e j path mnt uts hj he =>
        htar.execs hmem e j path mnt uts hj ((htag e).symm.trans he)⟩
    rw [List.getElem?_map] at hu
    obtain ⟨t, ht, rfl⟩ := Option.map_eq_some_iff.mp hu
    split at hf
    · cases hf
    · rename_i hthread
      rw [if_neg hthread] at hcall
      exact htar.calls hmem j v id path t hj ht hcall f hf

/-- No two processes have the same number. -/
theorem pids_nodup (hrun : run step (init h) ls = some s) : (s.shared.pids.map Prod.fst).Nodup := by
  refine invariant_run (P := fun _ _ => True)
    (I := fun s : State => (s.shared.pids.map Prod.fst).Nodup)
    (fun s l s' hnodup _ hstep => ?_) (by exact List.nodup_nil) (Along.trivial _ _) hrun
  cases l with
  | invoke c =>
    obtain rfl := Option.some.inj hstep
    exact hnodup
  | step i o =>
    obtain ⟨t, f, k, out, hadv⟩ := Pool.advance_eq_some hstep
    rcases exec_pids hadv.exec with hsub | ⟨pid, hnone, hpids⟩
    · exact hnodup.sublist (hsub.map _)
    · rw [hpids, List.map_cons, List.nodup_cons]
      exact ⟨notMem_of_process hnone, hnodup⟩
  | exit i =>
    simp only [Namespaces.step] at hstep
    split at hstep
    · obtain rfl := Option.some.inj hstep
      exact hnodup.sublist (List.filter_sublist.map _)
    · cases hstep
  | foreign pid ns =>
    simp only [Namespaces.step] at hstep
    split at hstep
    · rename_i hguard
      obtain rfl := Option.some.inj hstep
      exact List.nodup_cons.mpr ⟨notMem_of_process hguard.2.1, hnodup⟩
    · cases hstep
  | crash =>
    obtain rfl := Option.some.inj hstep
    exact hnodup

/-- The process `e` is in the container whose process is `q`. -/
structure InContainer (s : State) (q : ℕ) (path : Option String) (e : ℕ) : Prop where
  executes : s.shared.executes e
  uts : (s.shared.ns e).uts = (s.shared.ns q).uts
  mnt : (s.shared.ns e).mnt = (s.shared.ns q).mnt
  hostname : s.shared.hostnameOf e = s.shared.hostnameOf q
  resolvConf : s.shared.resolvConfOf e = s.shared.resolvConfOf q
  net : s.shared.NetOf (s.shared.ns e).net path

/-- **An exec is in its container.** The container `q` runs in the state `s₁`, and still has the
number `pid` in the state `s`: a call that execs in the process `pid` and that was made in between
has started a process in the container. -/
theorem exec_joins_container {ls₁ ls₂ : List Label} {s₁ : State} {k j e : ℕ} {cid id : ContainerId}
    {sb : SandboxId} {info : SandboxInfo} {v : ExecCall} {path : Option String}
    {t : Task Tag Frame Result} (hrun₁ : run step (init h) ls₁ = some s₁)
    (hq : s₁.Runs q (.container k cid sb info)) (hrun₂ : run step s₁ ls₂ = some s)
    (hpid : (pid, q) ∈ s.shared.pids) (hj : s₁.tasks.length ≤ j) (ht : s.tasks[j]? = some t)
    (htag : t.tag = .call (.exec v id pid path)) (hres : t.result = some (.ok (.running e))) :
    InContainer s q path e := by
  have hinv₁ : Inv True h ls₁ s₁ := inv_run (.inl True.intro) hrun₁
  have htar₁ : Targets q pid s₁.tasks.length (s₁.shared.ns q) s₁ := by
    refine ⟨⟨_, hq, rfl⟩, rfl, pids_nodup hrun₁, fun _ j v id path u hj hu => ?_,
      fun _ e j path mnt uts hj he => ?_⟩
    · exact absurd (List.getElem?_eq_some_iff.mp hu).1 (Nat.not_lt.mpr hj)
    · obtain ⟨⟨tag, fs, r⟩, hu, rfl⟩ := tag?_eq_some he
      exact absurd (Nat.lt_trans (hinv₁.holds e _ hu).1 (lt_of_tag? he)) (Nat.not_lt.mpr hj)
  obtain ⟨⟨ls, hinv⟩, htar⟩ : (∃ ls, Inv True h ls s) ∧
      Targets q pid s₁.tasks.length (s₁.shared.ns q) s := by
    refine invariant_run (P := fun _ _ => True) (I := fun s => (∃ ls, Inv True h ls s) ∧
      Targets q pid s₁.tasks.length (s₁.shared.ns q) s) ?_ ⟨⟨ls₁, hinv₁⟩, htar₁⟩
      (Along.trivial _ _) hrun₂
    rintro s l s' ⟨⟨ls, hinv⟩, htar⟩ - hstep
    exact ⟨⟨ls ++ [l], hinv.step (.inl True.intro) hstep⟩, htar.step hinv hstep⟩
  obtain ⟨τ, hchild, hruns⟩ := hinv.started ht htag hres
  cases hchild with
  | exec v id pid path mnt uts =>
    obtain ⟨hmnt, huts⟩ := htar.execs hpid e j path mnt uts hj hruns.1
    obtain ⟨hmntOf, hutsOf, hnet⟩ := hinv.joined hruns
    have hu : (s.shared.ns e).uts = (s.shared.ns q).uts := by rw [hutsOf, huts, htar.place]
    have hm : (s.shared.ns e).mnt = (s.shared.ns q).mnt := by rw [hmntOf, hmnt, htar.place]
    exact ⟨hruns.2, hu, hm, by rw [World.hostnameOf, hu]; rfl, by rw [World.resolvConfOf, hm]; rfl,
      hnet.netOf⟩

theorem exec_joins_container_visitedRun :
    ∃ s, run step (init node) visitedRun = some s ∧ InContainer s 3 (some webNetns) 5 := by
  have hentered : (run step (init node) enteredRun).any (fun s =>
      s.tag? 3 = some (.container 2 ⟨"ct-1"⟩ ⟨"sb-1"⟩ webInfo) ∧ s.shared.executes 3 ∧
        s.tasks.length = 4) := by decide +kernel
  have hvisited : (run step (init node) visitedRun).any (fun s => (100, 3) ∈ s.shared.pids ∧
      s.tasks[4]? = some ⟨.call (.exec .execSync ⟨"ct-1"⟩ 100 (some webNetns)), [],
        some (.ok (.running 5))⟩) := by decide +kernel
  obtain ⟨s, hrun, hs⟩ := (Option.any_eq_true _ _).mp hvisited
  obtain ⟨hpid, ht⟩ := of_decide_eq_true hs
  obtain ⟨s₁, hrun₁, hrun₂⟩ := run_append_eq_some.mp hrun
  rw [hrun₁, Option.any_some] at hentered
  obtain ⟨htag, hexecutes, hlen⟩ := of_decide_eq_true hentered
  exact ⟨s, hrun,
    exec_joins_container hrun₁ ⟨htag, hexecutes⟩ hrun₂ hpid (Nat.le_of_eq hlen) ht rfl rfl⟩

end LightrCri.Fake.Namespaces
