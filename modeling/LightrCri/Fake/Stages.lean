import LightrCri.Fake.Namespaces

/-!
# The stages of containers and of calls

What is known of a task of the namespaces machine in every state (`Holds`): which system calls it
has still to make, and in which namespaces it is by then. A child of a container names its UTS
namespace, mounts its `resolv.conf` and joins its network namespace in this order (`Entering`); a
process of an exec is where it opened the namespaces (`Joining`); the thread of a call never moves
(`Calling`). `Holds.other`: none of this is changed by the steps of others.
-/

namespace LightrCri.Fake.Namespaces

open Backend Foundations Function
open LightrCri.Net (NETNS_DIR)

/-! ## What a run has done -/

/-- A system call of the task `q` has failed. -/
def Failed (ls : List Label) (q : ℕ) : Prop := ∃ o, Label.step q o ∈ ls ∧ o.fault ≠ none

/-- A container of `sb` was started with the configuration that `text` says. -/
def Written (ls : List Label) (sb : SandboxId) (text : String) : Prop :=
  ∃ id info dns, Label.invoke (.startContainer id sb info) ∈ ls ∧ info.dns = some dns ∧
    text = resolvConf dns

/-- The private remount of the step, if it is one, succeeds. -/
def remounts (s : State) : Label → Prop
  | .step i o => s.top i = some (.op .remountPrivate) → o.fault = none
  | _ => True

instance (s : State) (l : Label) : Decidable (remounts s l) := by
  cases l <;> unfold remounts <;> infer_instance

def Tag.isContainer : Tag → Bool
  | .container .. => true
  | _ => false

def State.tag? (s : State) (q : ℕ) : Option Tag := s.tasks[q]?.map Task.tag

/-- The task `q` is the process of a container. -/
def State.container (s : State) (q : ℕ) : Prop := ∃ τ, s.tag? q = some τ ∧ τ.isContainer

theorem Failed.mono {ls : List Label} {q : ℕ} (h : Failed ls q) (l : Label) :
    Failed (ls ++ [l]) q := by
  obtain ⟨o, ho, hfault⟩ := h
  exact ⟨o, List.mem_append_left _ ho, hfault⟩

theorem Written.mono {ls : List Label} {sb : SandboxId} {text : String} (h : Written ls sb text)
    (l : Label) : Written (ls ++ [l]) sb text := by
  obtain ⟨id, info, dns, hmem, hdns, htext⟩ := h
  exact ⟨id, info, dns, List.mem_append_left _ hmem, hdns, htext⟩

theorem failed_step {ls : List Label} {i : ℕ} {o : Oracle} (h : o.fault ≠ none) :
    Failed (ls ++ [Label.step i o]) i :=
  ⟨o, List.mem_append_right _ List.mem_cons_self, h⟩

/-! ## The stages of a child -/

section Stages

variable (leak : Prop) (h : Host) (ls : List Label) (w : World) (q : ℕ)

/-- What is left of setting the name. -/
inductive UtsStage (hostname : String) : List Op → Prop
  | ahead : hostname ≠ "" → (w.ns q).uts = 0 → UtsStage hostname [.unshareUts hostname]
  | own : (w.ns q).uts ≠ 0 → w.hostnames[(w.ns q).uts]? = some ⟨h.hostname, none⟩ →
      UtsStage hostname [.sethostname hostname]
  | named : (w.ns q).uts ≠ 0 → w.hostnames[(w.ns q).uts]? = some ⟨hostname, none⟩ →
      UtsStage hostname []
  | kept : w.hostnames[(w.ns q).uts]? = some ⟨h.hostname, none⟩ → hostname = "" ∨ Failed ls q →
      UtsStage hostname []

/-- What is left of mounting the `resolv.conf`. What the mounts are is known unless a remount has
failed. -/
inductive MntStage (j : ℕ) (sb : SandboxId) (info : SandboxInfo) : List Op → Prop
  | ahead : (w.resolvConfs sb).isSome → (w.ns q).mnt = 0 → MntStage j sb info [.unshareMnt sb]
  | own : (w.resolvConfs sb).isSome → (w.ns q).mnt ≠ 0 →
      leak ∨ w.mounts[(w.ns q).mnt]? = some ⟨none, h.peers⟩ →
      MntStage j sb info [.remountPrivate, .bindResolvConf sb]
  | alone : (w.resolvConfs sb).isSome → (w.ns q).mnt ≠ 0 →
      leak ∨ w.mounts[(w.ns q).mnt]? = some ⟨none, none⟩ →
      MntStage j sb info [.bindResolvConf sb]
  | bound (text : String) : Written ls sb text → (w.ns q).mnt ≠ 0 →
      leak ∨ w.mounts[(w.ns q).mnt]? = some ⟨some text, none⟩ → MntStage j sb info []
  | kept : info.dns = none ∨ Failed ls j ∨ Failed ls q →
      leak ∨ (∃ p, w.mounts[(w.ns q).mnt]? = some ⟨none, p⟩) → MntStage j sb info []

/-- What is left of joining the network namespace of the sandbox. -/
inductive NetStage : Option String → List Op → Prop
  | ahead (path : String) (net : Option ℕ) : (w.ns q).net = 0 →
      (∀ n, net = some n → w.nets[n]? = some (some path)) → NetStage (some path) [.setnsNet net]
  | joined (path : String) : w.nets[(w.ns q).net]? = some (some path) → NetStage (some path) []
  | host : (w.ns q).net = 0 → NetStage none []

/-- The stages of the process of a container. -/
inductive Entering (j : ℕ) (sb : SandboxId) (info : SandboxInfo) : List Frame → Prop
  | before (u m n : List Op) : w.report q = none → UtsStage h ls w q info.hostname u →
      MntStage leak h ls w q j sb info m → NetStage w q info.netnsPath n →
      Entering j sb info ((u ++ m ++ n ++ [Op.execve]).map .op)
  | after : (∀ k, w.report q = some (.ok k) → k = q ∧ UtsStage h ls w q info.hostname [] ∧
      MntStage leak h ls w q j sb info [] ∧ NetStage w q info.netnsPath []) → Entering j sb info []

/-- The stages of a process that joins the namespaces `mnt` and `uts`. -/
inductive Joining (path : Option String) (mnt uts : ℕ) : List Frame → Prop
  | mnt (n : List Op) : w.report q = none → mnt < w.mounts.length → uts < w.hostnames.length →
      NetStage w q path n → Joining path mnt uts ((.setnsMnt mnt uts :: (n ++ [Op.execve])).map .op)
  | uts (n : List Op) (e : Option String) : w.report q = none → uts < w.hostnames.length →
      (e = none → (w.ns q).mnt = mnt) → NetStage w q path n →
      Joining path mnt uts ((.setnsUts uts e :: (n ++ [Op.execve])).map .op)
  | net (n : List Op) : w.report q = none → (w.ns q).mnt = mnt → (w.ns q).uts = uts →
      NetStage w q path n → Joining path mnt uts ((n ++ [Op.execve]).map .op)
  | after : (∀ k, w.report q = some (.ok k) → k = q ∧ (w.ns q).mnt = mnt ∧ (w.ns q).uts = uts ∧
      NetStage w q path []) → Joining path mnt uts []

/-- The stages of the thread of `netns::create`. -/
inductive Pinning (path : String) : List Frame → Prop
  | unshare : w.report q = none → Pinning path [.unshareNet path, .mountNet path]
  | mount : w.report q = none → w.nets[(w.ns q).net]? = some (some path) →
      Pinning path [.mountNet path]
  | after : Pinning path []

/-- The stages of the thread of `dial_in_netns`. -/
inductive Dialing (path : String) : List Frame → Prop
  | enter : w.report q = none → Dialing path [.enterNetns path, .connect]
  | connect : w.report q = none → w.nets[(w.ns q).net]? = some (some path) →
      Dialing path [.connect]
  | after : (∀ n, w.report q = some (.ok n) → w.nets[n]? = some (some path)) → Dialing path []

end Stages

/-! ## The stages of a call -/

section Calls

variable (ls : List Label) (tags : ℕ → Option Tag) (w : World) (j : ℕ)

/-- The call starts a process. -/
def Call.spawns : Call → Bool
  | .startContainer .. | .exec .. => true
  | _ => false

/-- A command that the call has built, with the network namespace still to join. -/
inductive Made : Call → Tag → List Op → Option String → Prop
  | container (id : ContainerId) (sb : SandboxId) (info : SandboxInfo) (src : Option SandboxId) :
      src = none ∧ (info.dns = none ∨ Failed ls j) ∨ src = some sb ∧ (w.resolvConfs sb).isSome →
      Made (.startContainer id sb info) (.container j id sb info)
        (installContainerPreExec info.hostname src) info.netnsPath
  | exec (v : ExecCall) (id : ContainerId) (pid : ℕ) (path : Option String) (mnt uts : ℕ) :
      mnt < w.mounts.length → uts < w.hostnames.length →
      Made (.exec v id pid path) (.exec j pid path mnt uts) [.setnsMnt mnt uts] path

/-- The closure that joins the network namespace. -/
inductive NetOps : Option String → List Op → Prop
  | none : NetOps none []
  | some (path : String) (net : Option ℕ) : (∀ n, net = some n → w.nets[n]? = some (some path)) →
      NetOps (some path) [.setnsNet net]

/-- The frames of a call. -/
inductive Pending : Call → Frame → Prop
  | write (id : ContainerId) (sb : SandboxId) (info : SandboxInfo) :
      Pending (.startContainer id sb info) (.writeSandboxResolvConf id sb info)
  | openMnt (v : ExecCall) (id : ContainerId) (pid : ℕ) (path : Option String) :
      Pending (.exec v id pid path) (.openMnt v id pid path)
  | openUts (v : ExecCall) (id : ContainerId) (pid : ℕ) (path : Option String) (mnt : ℕ) :
      mnt < w.mounts.length → Pending (.exec v id pid path) (.openUts v id pid path mnt)
  | openNet (c : Call) (failed : String) (path : Option String) (cmd : Command) :
      Made ls w j c cmd.tag cmd.preExec path → Pending c (.openNet failed path cmd)
  | spawn (c : Call) (path : Option String) (ops net : List Op) (cmd : Command) :
      Made ls w j c cmd.tag ops path → NetOps w path net → cmd.preExec = ops ++ net →
      Pending c (.spawn cmd)
  | spawned (c : Call) (failed : String) : c.spawns → Pending c (.spawned failed)
  | touch (name : String) : Pending (.create name) (.touch (Net.joinPath NETNS_DIR name))
  | createThread (name : String) :
      Pending (.create name) (.createThread (Net.joinPath NETNS_DIR name))
  | created (name : String) : Pending (.create name) (.created (Net.joinPath NETNS_DIR name))
  | dialThread (path : String) : Pending (.dial (some path)) (.dialThread path)
  | dialed (path : String) : Pending (.dial (some path)) .dialed
  | connect : Pending (.dial none) .connect
  | umount (path : String) : Pending (.teardown path) (.umount path)
  | unlink (path : String) : Pending (.teardown path) (.unlink path)
  | readDir : Pending .sweep .readDir
  | sweepOne (paths : List String) (n : ℕ) : Pending .sweep (.sweepOne paths n)
  | unlinkSwept (path : String) (paths : List String) (n : ℕ) :
      Pending .sweep (.unlinkSwept path paths n)

/-- What a call starts. -/
inductive Child : Call → Tag → Prop
  | container (id : ContainerId) (sb : SandboxId) (info : SandboxInfo) :
      Child (.startContainer id sb info) (.container j id sb info)
  | exec (v : ExecCall) (id : ContainerId) (pid : ℕ) (path : Option String) (mnt uts : ℕ) :
      Child (.exec v id pid path) (.exec j pid path mnt uts)
  | pinner (name : String) : Child (.create name) (.pinner (Net.joinPath NETNS_DIR name))
  | dialer (path : String) : Child (.dial (some path)) (.dialer path)

/-- What a call that succeeds returns. -/
inductive Returned : Call → Value → Prop
  | running (c : Call) (τ : Tag) (q : ℕ) : Child j c τ → tags q = some τ → w.executes q →
      Returned c (.running q)
  | connected (path : String) (n : ℕ) : w.nets[n]? = some (some path) →
      Returned (.dial (some path)) (.connected n)
  | direct : Returned (.dial none) (.connected 0)
  | unit (c : Call) : Returned c .unit
  | path (c : Call) (path : String) : Returned c (.path path)
  | removed (c : Call) (n : ℕ) : Returned c (.removed n)

/-- A call: its thread stays where it is. -/
structure Calling (c : Call) (frames : List Frame) (result : Option Result) : Prop where
  ns : w.ns j = {}
  report : w.report j = none ∨ frames = []
  invoked : Label.invoke c ∈ ls
  frames : ∀ f ∈ frames, Pending ls w j c f
  child : ∀ q, w.child j = some q → ∃ τ, tags q = some τ ∧ Child j c τ
  result : ∀ v, result = some (.ok v) → Returned tags w j c v

end Calls

/-- What is known of a task. -/
def Holds (leak : Prop) (h : Host) (ls : List Label) (tags : ℕ → Option Tag) (w : World) (q : ℕ)
    (t : Task Tag Frame Result) : Prop :=
  match t.tag with
  | .call c => Calling ls tags w q c t.frames t.result
  | .container j _ sb info => Entering leak h ls w q j sb info t.frames
  | .exec j _ path mnt uts => j < q ∧ Joining w q path mnt uts t.frames
  | .pinner path => Pinning w q path t.frames
  | .dialer path => Dialing w q path t.frames
  | .foreign => t.frames = []

/-- The host. -/
structure Rooted (leak : Prop) (h : Host) (ls : List Label) (w : World) : Prop where
  hostname : w.hostnames[0]? = some ⟨h.hostname, none⟩
  alone : ∀ (n : ℕ) (a : Space String), w.hostnames[n]? = some a → a.peers = none
  mounts : 0 < w.mounts.length
  resolvConf : leak ∨ w.mounts[0]? = some ⟨none, h.peers⟩
  nets : w.nets[0]? = some none
  pins : ∀ p ∈ w.pins, w.nets[p.2]? = some (some p.1)
  written : ∀ sb text, w.resolvConfs sb = some text → Written ls sb text
  exist : ∀ q, (w.ns q).Exists w

structure Inv (leak : Prop) (h : Host) (ls : List Label) (s : State) : Prop where
  rooted : Rooted leak h ls s.shared
  holds : ∀ q t, s.tasks[q]? = some t → Holds leak h ls s.tag? s.shared q t
  unborn : ∀ q, s.tasks.length ≤ q →
    s.shared.ns q = {} ∧ s.shared.child q = none ∧ s.shared.report q = none
  uts : Foundations.Apart s.container fun q => (s.shared.ns q).uts
  mnt : Foundations.Apart s.container fun q => (s.shared.ns q).mnt

/-! ## What a step leaves to the others -/

/-- What the step of the task `i` leaves as it is for the others. Only the processes of containers
(`mine`) write in their namespaces. -/
structure Elsewhere (leak mine : Prop) (i next : ℕ) (forks : Bool) (w w' : World) : Prop where
  ns : ∀ q, q ≠ i → (q = next → forks = false) → w'.ns q = w.ns q
  report : ∀ q, q ≠ i → (q = next → forks = false) → w'.report q = w.report q
  child : ∀ q, q ≠ i → w'.child q = w.child q
  told : ∀ k, w.report i = some (.ok k) → w'.report i = some (.ok k)
  hostnames : w.hostnames.length ≤ w'.hostnames.length
  hostname : ∀ n, (mine → n ≠ (w.ns i).uts ∨ n = 0) → n < w.hostnames.length →
    w'.hostnames[n]? = w.hostnames[n]?
  mounts : w.mounts.length ≤ w'.mounts.length
  mount : leak ∨ ∀ n, (mine → n ≠ (w.ns i).mnt ∨ n = 0) → n < w.mounts.length →
    w'.mounts[n]? = w.mounts[n]?
  nets : ∀ (n : ℕ) x, w.nets[n]? = some x → w'.nets[n]? = some x
  resolvConfs : ∀ sb, (w.resolvConfs sb).isSome → (w'.resolvConfs sb).isSome

/-- The step changes nothing of the namespaces. -/
structure Calm (w w' : World) : Prop where
  hostnames : w'.hostnames = w.hostnames
  mounts : w'.mounts = w.mounts
  nets : w'.nets = w.nets
  ns : w'.ns = w.ns
  child : w'.child = w.child
  report : w'.report = w.report
  resolvConfs : w'.resolvConfs = w.resolvConfs
  pins : ∀ p ∈ w'.pins, p ∈ w.pins

section Elsewhere

variable {leak mine : Prop} {i next : ℕ} {forks : Bool} {w w' : World}

theorem Elsewhere.of_spaces (hhost : w'.hostnames = w.hostnames) (hmnt : w'.mounts = w.mounts)
    (hnets : ∀ (n : ℕ) x, w.nets[n]? = some x → w'.nets[n]? = some x)
    (hresolv : ∀ sb, (w.resolvConfs sb).isSome → (w'.resolvConfs sb).isSome)
    (hns : ∀ q, q ≠ i → (q = next → forks = false) → w'.ns q = w.ns q)
    (hreport : ∀ q, q ≠ i → (q = next → forks = false) → w'.report q = w.report q)
    (hchild : ∀ q, q ≠ i → w'.child q = w.child q)
    (htold : ∀ k, w.report i = some (.ok k) → w'.report i = some (.ok k)) :
    Elsewhere leak mine i next forks w w' where
  ns := hns
  report := hreport
  child := hchild
  told := htold
  hostnames := Nat.le_of_eq (by rw [hhost])
  hostname := fun n _ _ => by rw [hhost]
  mounts := Nat.le_of_eq (by rw [hmnt])
  mount := .inr fun n _ _ => by rw [hmnt]
  nets := hnets
  resolvConfs := hresolv

theorem Calm.elsewhere (h : Calm w w') : Elsewhere leak mine i next forks w w' :=
  .of_spaces h.hostnames h.mounts (fun n x hx => by rw [h.nets, hx])
    (fun sb hsb => by rw [h.resolvConfs]; exact hsb) (fun q _ _ => by rw [h.ns])
    (fun q _ _ => by rw [h.report]) (fun q _ => by rw [h.child]) (fun k hk => by rw [h.report, hk])

/-- The task moves, or tells its caller something. -/
theorem Elsewhere.self (hreport : w.report i = none) (hhost : w'.hostnames = w.hostnames)
    (hmnt : w'.mounts = w.mounts) (hnets : ∀ (n : ℕ) x, w.nets[n]? = some x → w'.nets[n]? = some x)
    (hresolv : w'.resolvConfs = w.resolvConfs) (hchild : w'.child = w.child)
    (hns : ∀ q, q ≠ i → w'.ns q = w.ns q) (hothers : ∀ q, q ≠ i → w'.report q = w.report q) :
    Elsewhere leak mine i next forks w w' :=
  .of_spaces hhost hmnt hnets (fun sb hsb => by rw [hresolv]; exact hsb) (fun q hq _ => hns q hq)
    (fun q hq _ => hothers q hq) (fun q _ => by rw [hchild])
    (fun k hk => by rw [hreport] at hk; cases hk)

/-- A task is started. -/
theorem Elsewhere.fork (pids : List (ℕ × ℕ)) (hne : i ≠ next) :
    Elsewhere leak mine i next true w { w.fork i next with pids := pids } := by
  refine .of_spaces rfl rfl (fun n x hx => hx) (fun sb hsb => hsb) ?_ ?_ ?_ ?_
  · intro q hq hnext
    have hborn : q ≠ next := fun h => absurd (hnext h) (by decide)
    simp [World.fork, World.setNs, hborn]
  · intro q hq hnext
    have hborn : q ≠ next := fun h => absurd (hnext h) (by decide)
    simp [World.fork, World.setNs, hborn]
  · intro q hq
    simp [World.fork, World.setNs, hq]
  · intro k hk
    simpa [World.fork, World.setNs, hne] using hk

end Elsewhere

section Others

variable {leak mine : Prop} {h : Host} {ls : List Label} {tags tags' : ℕ → Option Tag}
  {w w' : World}
  {q : ℕ} {i next : ℕ} {forks : Bool}

theorem UtsStage.other {l : Label} {hostname : String} {ops : List Op}
    (hst : UtsStage h ls w q hostname ops)
    (hns : (w'.ns q).uts = (w.ns q).uts)
    (hname : w'.hostnames[(w.ns q).uts]? = w.hostnames[(w.ns q).uts]?) :
    UtsStage h (ls ++ [l]) w' q hostname ops := by
  cases hst with
  | ahead hne huts => exact .ahead hne (by rw [hns, huts])
  | own huts hshows => exact .own (by rw [hns]; exact huts) (by rw [hns, hname, hshows])
  | named huts hshows => exact .named (by rw [hns]; exact huts) (by rw [hns, hname, hshows])
  | kept hshows hwhy =>
    exact .kept (by rw [hns, hname, hshows]) (hwhy.imp_right fun hf => hf.mono l)

theorem MntStage.other {l : Label} {j : ℕ} {sb : SandboxId} {info : SandboxInfo} {ops : List Op}
    (hst : MntStage leak h ls w q j sb info ops) (hns : (w'.ns q).mnt = (w.ns q).mnt)
    (hmnt : leak ∨ w'.mounts[(w.ns q).mnt]? = w.mounts[(w.ns q).mnt]?)
    (hresolv : (w.resolvConfs sb).isSome → (w'.resolvConfs sb).isSome) :
    MntStage leak h (ls ++ [l]) w' q j sb info ops := by
  have hsame : ∀ a : Option (Space (Option String)), leak ∨ w.mounts[(w.ns q).mnt]? = a →
      leak ∨ w'.mounts[(w'.ns q).mnt]? = a := fun a ha => by
    rw [hns]
    rcases hmnt with hleak | hmnt
    · exact .inl hleak
    · rwa [hmnt]
  cases hst with
  | ahead hsome hzero => exact .ahead (hresolv hsome) (by rw [hns, hzero])
  | own hsome hne hshows => exact .own (hresolv hsome) (by rw [hns]; exact hne) (hsame _ hshows)
  | alone hsome hne hshows => exact .alone (hresolv hsome) (by rw [hns]; exact hne) (hsame _ hshows)
  | bound text hwrote hne hshows =>
    exact .bound text (hwrote.mono l) (by rw [hns]; exact hne) (hsame _ hshows)
  | kept hwhy hshows =>
    refine .kept (hwhy.imp_right (Or.imp (Failed.mono · l) (Failed.mono · l))) ?_
    rcases hshows with hleak | ⟨p, hshows⟩
    · exact .inl hleak
    · exact (hsame _ (.inr hshows)).imp_right fun hshows' => ⟨p, hshows'⟩

theorem NetStage.other {path : Option String} {ops : List Op} (hst : NetStage w q path ops)
    (hns : (w'.ns q).net = (w.ns q).net)
    (hnets : ∀ (n : ℕ) x, w.nets[n]? = some x → w'.nets[n]? = some x) : NetStage w' q path ops := by
  cases hst with
  | ahead path net hzero hnet =>
    exact .ahead path net (by rw [hns, hzero]) fun n hn => hnets _ _ (hnet n hn)
  | joined path hnet => exact .joined path (by rw [hns]; exact hnets _ _ hnet)
  | host hzero => exact .host (by rw [hns, hzero])

theorem Entering.other {j : ℕ} {sb : SandboxId} {info : SandboxInfo} {fs : List Frame}
    (hst : Entering leak h ls w q j sb info fs) (hns : w'.ns q = w.ns q)
    (hreport : w'.report q = w.report q)
    (hname : w'.hostnames[(w.ns q).uts]? = w.hostnames[(w.ns q).uts]?)
    (hmnt : leak ∨ w'.mounts[(w.ns q).mnt]? = w.mounts[(w.ns q).mnt]?)
    (hresolv : (w.resolvConfs sb).isSome → (w'.resolvConfs sb).isSome)
    (hnets : ∀ (n : ℕ) x, w.nets[n]? = some x → w'.nets[n]? = some x) (l : Label) :
    Entering leak h (ls ++ [l]) w' q j sb info fs := by
  have hnet : (w'.ns q).net = (w.ns q).net := by rw [hns]
  have huts : (w'.ns q).uts = (w.ns q).uts := by rw [hns]
  have hmnt' : (w'.ns q).mnt = (w.ns q).mnt := by rw [hns]
  cases hst with
  | before u m n hnone hu hm hn =>
    exact .before u m n (by rw [hreport, hnone]) (hu.other huts hname)
      (hm.other hmnt' hmnt hresolv) (hn.other hnet hnets)
  | after hdone =>
    refine .after fun k hk => ?_
    rw [hreport] at hk
    obtain ⟨hself, hu, hm, hn⟩ := hdone k hk
    exact ⟨hself, hu.other huts hname, hm.other hmnt' hmnt hresolv, hn.other hnet hnets⟩

theorem Joining.other {path : Option String} {mnt uts : ℕ} {fs : List Frame}
    (hst : Joining w q path mnt uts fs) (hel : Elsewhere leak mine i next forks w w') (hq : q ≠ i)
    (hlt : q < next) : Joining w' q path mnt uts fs := by
  have hnext : q = next → forks = false := fun h => absurd h (Nat.ne_of_lt hlt)
  have hns := hel.ns q hq hnext
  have hreport := hel.report q hq hnext
  have hnet : (w'.ns q).net = (w.ns q).net := by rw [hns]
  cases hst with
  | mnt n hnone hmnt huts hn =>
    exact .mnt n (by rw [hreport, hnone]) (Nat.lt_of_lt_of_le hmnt hel.mounts)
      (Nat.lt_of_lt_of_le huts hel.hostnames) (hn.other hnet hel.nets)
  | uts n e hnone huts hmnt hn =>
    exact .uts n e (by rw [hreport, hnone]) (Nat.lt_of_lt_of_le huts hel.hostnames)
      (fun he => by rw [hns, hmnt he]) (hn.other hnet hel.nets)
  | net n hnone hmnt huts hn =>
    exact .net n (by rw [hreport, hnone]) (by rw [hns, hmnt]) (by rw [hns, huts])
      (hn.other hnet hel.nets)
  | after hdone =>
    refine .after fun k hk => ?_
    rw [hreport] at hk
    obtain ⟨hself, hmnt, huts, hn⟩ := hdone k hk
    exact ⟨hself, by rw [hns, hmnt], by rw [hns, huts], hn.other hnet hel.nets⟩

theorem Pinning.other {path : String} {fs : List Frame} (hst : Pinning w q path fs)
    (hel : Elsewhere leak mine i next forks w w') (hq : q ≠ i) (hlt : q < next) :
    Pinning w' q path fs := by
  have hnext : q = next → forks = false := fun h => absurd h (Nat.ne_of_lt hlt)
  have hreport := hel.report q hq hnext
  cases hst with
  | unshare hnone => exact .unshare (by rw [hreport, hnone])
  | mount hnone hnet =>
    exact .mount (by rw [hreport, hnone]) (by rw [hel.ns q hq hnext]; exact hel.nets _ _ hnet)
  | after => exact .after

theorem Dialing.other {path : String} {fs : List Frame} (hst : Dialing w q path fs)
    (hel : Elsewhere leak mine i next forks w w') (hq : q ≠ i) (hlt : q < next) :
    Dialing w' q path fs := by
  have hnext : q = next → forks = false := fun h => absurd h (Nat.ne_of_lt hlt)
  have hreport := hel.report q hq hnext
  cases hst with
  | enter hnone => exact .enter (by rw [hreport, hnone])
  | connect hnone hnet =>
    exact .connect (by rw [hreport, hnone]) (by rw [hel.ns q hq hnext]; exact hel.nets _ _ hnet)
  | after hdone => exact .after fun n hn => hel.nets _ _ (hdone n (by rw [← hreport, hn]))

theorem Made.other {c : Call} {τ : Tag} {ops : List Op} {path : Option String}
    (hmade : Made ls w q c τ ops path) (hel : Elsewhere leak mine i next forks w w') (l : Label) :
    Made (ls ++ [l]) w' q c τ ops path := by
  cases hmade with
  | container id sb info src hsrc =>
    refine .container id sb info src ?_
    rcases hsrc with ⟨hnone, hwhy⟩ | ⟨hsome, hfile⟩
    · exact .inl ⟨hnone, hwhy.imp_right (Failed.mono · l)⟩
    · exact .inr ⟨hsome, hel.resolvConfs sb hfile⟩
  | exec v id pid path mnt uts hmnt huts =>
    exact .exec v id pid path mnt uts (Nat.lt_of_lt_of_le hmnt hel.mounts)
      (Nat.lt_of_lt_of_le huts hel.hostnames)

theorem Pending.other {c : Call} {f : Frame} (hpend : Pending ls w q c f)
    (hel : Elsewhere leak mine i next forks w w') (l : Label) : Pending (ls ++ [l]) w' q c f := by
  cases hpend with
  | openUts v id pid path mnt hmnt =>
    exact .openUts v id pid path mnt (Nat.lt_of_lt_of_le hmnt hel.mounts)
  | openNet c failed path cmd hmade => exact .openNet c failed path cmd (hmade.other hel l)
  | spawn c path ops net cmd hmade hnet hops =>
    refine .spawn c path ops net cmd (hmade.other hel l) ?_ hops
    cases hnet with
    | none => exact .none
    | some path net hpath => exact .some path net fun n hn => hel.nets _ _ (hpath n hn)
  | spawned c failed hspawns => exact .spawned c failed hspawns
  | _ => constructor

/-- What a call has returned stays true. -/
theorem Returned.other {j : ℕ} {c : Call} {v : Value} (hret : Returned tags w j c v)
    (hel : Elsewhere leak mine i next forks w w')
    (htags : ∀ q τ, tags q = some τ → tags' q = some τ)
    (hborn : ∀ q τ, tags q = some τ → q < next) : Returned tags' w' j c v := by
  cases hret with
  | running c τ q hchild hτ hexecutes =>
    refine .running c τ q hchild (htags q τ hτ) ?_
    by_cases hq : q = i
    · subst hq
      exact hel.told q hexecutes
    · exact (hel.report q hq fun h => absurd h (Nat.ne_of_lt (hborn q τ hτ))).trans hexecutes
  | connected path n hnet => exact .connected path n (hel.nets _ _ hnet)
  | _ => constructor

theorem Calling.other {c : Call} {fs : List Frame} {r : Option Result}
    (hcall : Calling ls tags w q c fs r) (hel : Elsewhere leak mine i next forks w w') (hq : q ≠ i)
    (hlt : q < next) (htags : ∀ q τ, tags q = some τ → tags' q = some τ)
    (hborn : ∀ q τ, tags q = some τ → q < next) (l : Label) :
    Calling (ls ++ [l]) tags' w' q c fs r := by
  have hnext : q = next → forks = false := fun h => absurd h (Nat.ne_of_lt hlt)
  refine ⟨by rw [hel.ns q hq hnext, hcall.ns], ?_, List.mem_append_left _ hcall.invoked,
    fun f hf => (hcall.frames f hf).other hel l, fun p hp => ?_,
    fun v hv => (hcall.result v hv).other hel htags hborn⟩
  · rw [hel.report q hq hnext]
    exact hcall.report
  · rw [hel.child q hq] at hp
    obtain ⟨τ, hτ, hchild⟩ := hcall.child p hp
    exact ⟨τ, htags p τ hτ, hchild⟩

/-- **What is known of the other tasks.** -/
theorem Holds.other {t : Task Tag Frame Result} (hst : Holds leak h ls tags w q t)
    (hroot : Rooted leak h ls w) (hel : Elsewhere leak mine i next forks w w') (hq : q ≠ i)
    (hlt : q < next) (htags : ∀ q τ, tags q = some τ → tags' q = some τ)
    (hborn : ∀ q τ, tags q = some τ → q < next)
    (hapart : t.tag.isContainer → mine →
      ((w.ns q).uts ≠ (w.ns i).uts ∨ (w.ns q).uts = 0) ∧
        ((w.ns q).mnt ≠ (w.ns i).mnt ∨ (w.ns q).mnt = 0)) (l : Label) :
    Holds leak h (ls ++ [l]) tags' w' q t := by
  obtain ⟨tag, fs, r⟩ := t
  have hnext : q = next → forks = false := fun h => absurd h (Nat.ne_of_lt hlt)
  cases tag with
  | call c => exact Calling.other hst hel hq hlt htags hborn l
  | container j id sb info =>
    obtain ⟨huts, hmnt, -⟩ := hroot.exist q
    exact Entering.other hst (hel.ns q hq hnext) (hel.report q hq hnext)
      (hel.hostname _ (fun hm => (hapart rfl hm).1) huts)
      (hel.mount.imp_right fun hmount => hmount _ (fun hm => (hapart rfl hm).2) hmnt)
      (hel.resolvConfs sb) hel.nets l
  | exec j pid path mnt uts => exact ⟨hst.1, hst.2.other hel hq hlt⟩
  | pinner path => exact Pinning.other hst hel hq hlt
  | dialer path => exact Dialing.other hst hel hq hlt
  | foreign => exact hst

end Others

end LightrCri.Fake.Namespaces
