import IttyBittyServer.Upstream

/-! The descriptors that the proxy has open. Each is in some variable from which it will be
closed, unless a worker overwrites `serverSock` while it names another worker's socket. -/
namespace IttyBittyServer.Descriptors
open Run Upstream

def Held (s : State) (fd : Int) : Prop :=
  (∃ w, (s.workers w).pc.hasClient = true ∧ (s.workers w).client.fd = fd) ∨ (∃ c ∈ s.list, c.fd = fd) ∨
    s.serverSock = fd ∧ ∃ w, (s.workers w).pc.upstream = true

def NoLeak (s : State) : Prop := ∀ fd, s.files fd ≠ none → Held s fd

def Quiet (s : State) : Prop := s.list = [] ∧ ∀ w, (s.workers w).pc = .waiting

section
variable {s t : State} {w : Nat} {fd : Int}

theorem quietClosed (none_ : NoLeak s) (quiet : Quiet s) (fd : Int) : s.files fd = none := by
  by_contra opened
  rcases none_ fd opened with ⟨w,has,_⟩ | ⟨c,mem,_⟩ | ⟨_,w,busy⟩
  · rw [quiet.2 w] at has
    cases has
  · rw [quiet.1] at mem
    cases mem
  · rw [quiet.2 w] at busy
    cases busy

theorem heldMoved (others : ∀ v, v ≠ w → t.workers v = s.workers v) (list : t.list = s.list)
    (mine : (s.workers w).pc.hasClient = true → (s.workers w).client.fd = fd →
      (t.workers w).pc.hasClient = true ∧ (t.workers w).client.fd = fd)
    (shared : s.serverSock = fd → ∀ v, (s.workers v).pc.upstream = true →
      t.serverSock = fd ∧ (t.workers v).pc.upstream = true) (held : Held s fd) : Held t fd := by
  rcases held with ⟨v,has,same⟩ | ⟨c,mem,same⟩ | ⟨same,v,busy⟩
  · by_cases me : v = w
    · subst me
      exact Or.inl ⟨v,mine has same⟩
    · exact Or.inl ⟨v,by rw [others v me]; exact ⟨has,same⟩⟩
  · exact Or.inr (Or.inl ⟨c,list ▸ mem,same⟩)
  · obtain ⟨names,still⟩ := shared same v busy
    exact Or.inr (Or.inr ⟨names,v,still⟩)

theorem gotoOthers (pc : Pc) : ∀ v, v ≠ w → (s.goto w pc).workers v = s.workers v := fun v other => by
  simp [State.goto,setWorkers,other]

theorem gotoMine (pc : Pc) : (s.goto w pc).workers w = {s.workers w with pc := pc} := by
  simp [State.goto,setWorkers]

theorem heldGoto (pc : Pc) (client : (s.workers w).pc.hasClient = true → pc.hasClient = true)
    (server : (s.workers w).pc.upstream = true → pc.upstream = true) (held : Held s fd) : Held (s.goto w pc) fd := by
  refine heldMoved (gotoOthers pc) rfl (fun has same => ?_) (fun same v busy => ⟨same,?_⟩) held
  · rw [gotoMine]
    exact ⟨client has,same⟩
  · by_cases me : v = w
    · subst me
      rw [gotoMine]
      exact server busy
    · rwa [gotoOthers pc v me]

theorem revised {file : File} {at_ : Int} (opened : s.files at_ ≠ none)
    (here : (s.put at_ (some file)).files fd ≠ none) : s.files fd ≠ none := by
  by_cases same : fd = at_
  · exact same ▸ opened
  · simpa [State.put,Function.update,same] using here

theorem closed {at_ : Int} (here : (s.put at_ none).files fd ≠ none) : fd ≠ at_ ∧ s.files fd ≠ none := by
  by_cases same : fd = at_
  · simp [State.put,same] at here
  · exact ⟨same,by simpa [State.put,Function.update,same] using here⟩

theorem acceptNoLeak {dest : Nat} (none_ : NoLeak s) (h : accept s fd dest = some t) : NoLeak t := by
  simp only [accept] at h
  split at h <;> try contradiction
  cases Option.some.inj h
  intro other opened
  by_cases same : other = fd
  · exact Or.inr (Or.inl ⟨_,List.mem_append_right _ (List.mem_singleton.mpr rfl),same.symm⟩)
  · rcases none_ other (by simpa [Function.update,same] using opened) with worker | ⟨c,mem,named⟩ | server
    · exact Or.inl worker
    · exact Or.inr (Or.inl ⟨c,List.mem_append_left _ mem,named⟩)
    · exact Or.inr (Or.inr server)

theorem closeClientNoLeak (none_ : NoLeak s) {pc : Pc} (server : (s.workers w).pc.upstream = true → pc.upstream = true) :
    NoLeak ((s.put (s.workers w).client.fd none).goto w pc) := by
  intro fd opened
  obtain ⟨other,here⟩ := closed opened
  refine heldMoved (gotoOthers pc) rfl (fun _ same => absurd same.symm other) (fun same v busy => ⟨same,?_⟩)
    (none_ fd here)
  by_cases me : v = w
  · subst me
    rw [gotoMine]
    exact server busy
  · rwa [gotoOthers pc v me]

theorem closeServerNoLeak (none_ : NoLeak s) {pc : Pc} (client : (s.workers w).pc.hasClient = true → pc.hasClient = true) :
    NoLeak ((s.put s.serverSock none).goto w pc) := by
  intro fd opened
  obtain ⟨other,here⟩ := closed opened
  refine heldMoved (gotoOthers pc) rfl (fun has same => ?_) (fun same => absurd same.symm other) (none_ fd here)
  rw [gotoMine]
  exact ⟨client has,same⟩

/- With `serverSock` free to be set, whatever socket returns is held or not open. -/
theorem socketNoLeak {u : State} {pc : Pc} (none_ : NoLeak s) (idle : (s.workers w).pc = .socket)
    (alone : ∀ v, v ≠ w → (s.workers v).pc.upstream = false) (workers : u.workers = s.workers) (list : u.list = s.list)
    (files : ∀ fd, fd ≠ u.serverSock → u.files fd = s.files fd)
    (names : u.files u.serverSock ≠ none → pc.upstream = true) (client : pc.hasClient = true) :
    NoLeak (u.goto w pc) := by
  intro fd opened
  have opened : u.files fd ≠ none := opened
  by_cases same : fd = u.serverSock
  · refine Or.inr (Or.inr ⟨same.symm,w,?_⟩)
    rw [gotoMine]
    exact names (same ▸ opened)
  · have here : s.files fd ≠ none := by rwa [files fd same] at opened
    refine @heldMoved s _ w fd (fun v other => by rw [gotoOthers pc v other,workers]) list (fun has named => ?_)
      (fun _ v busy => ?_) (none_ fd here)
    · rw [gotoMine,workers]
      exact ⟨client,named⟩
    · by_cases me : v = w
      · rw [me,idle] at busy
        cases busy
      · rw [alone v me] at busy
        cases busy

theorem delivers (s : State) (fd : Int) (origin : List Nat) :
    ∃ delivered, s.deliver fd origin = {s with delivered := delivered} := by
  unfold State.deliver
  split <;> exact ⟨_,rfl⟩

theorem handleClientNoLeak {ok : Bool} (inv : Inv s) (none_ : NoLeak s)
    (alone : (s.workers w).pc = .socket → ∀ v, v ≠ w → (s.workers v).pc.upstream = false)
    (h : handleClient s w fd ok = some t) : NoLeak t := by
  cases pc : (s.workers w).pc with
  | waiting =>
    cases list : s.list with
    | nil => simp [handleClient,pc,list] at h
    | cons c rest =>
      simp only [handleClient,pc,list,Option.some.injEq] at h
      subst t
      intro fd opened
      rcases none_ fd opened with ⟨v,has,named⟩ | ⟨d,mem,named⟩ | ⟨named,v,busy⟩
      · refine Or.inl ⟨v,?_⟩
        have other : v ≠ w := fun same => by rw [same,pc] at has; cases has
        rw [setWorkers,if_neg other]
        exact ⟨has,named⟩
      · rw [list] at mem
        rcases List.mem_cons.mp mem with rfl | later
        · refine Or.inl ⟨w,?_⟩
          rw [setWorkers,if_pos rfl]
          exact ⟨rfl,named⟩
        · exact Or.inr (Or.inl ⟨d,later,named⟩)
      · refine Or.inr (Or.inr ⟨named,v,?_⟩)
        have other : v ≠ w := fun same => by rw [same,pc] at busy; cases busy
        rw [setWorkers,if_neg other]
        exact busy
  | request =>
    simp only [handleClient,pc,Option.some.injEq] at h
    subst t
    exact fun fd opened => heldGoto _ (by cases ok <;> simp [Pc.hasClient]) (by simp [pc,Pc.upstream]) (none_ fd opened)
  | socket =>
    simp only [handleClient,pc] at h
    split at h
    · cases Option.some.inj h
      exact socketNoLeak none_ pc (alone pc) rfl rfl (fun _ _ => rfl) (fun opened => absurd (inv.negative (-1) (by decide)) opened)
        rfl
    · split at h <;> try contradiction
      cases Option.some.inj h
      exact socketNoLeak none_ pc (alone pc) rfl rfl
        (fun other away => by simp only [State.put] at away ⊢; simp [Function.update,away]) (fun _ => rfl) rfl
  | connect =>
    obtain ⟨u,file,_⟩ := inv.sockets w (by rw [pc]; rfl)
    simp only [handleClient,pc,file] at h
    split at h
    · cases Option.some.inj h
      intro fd opened
      have held := none_ fd (revised (by rw [file]; simp) opened)
      exact heldGoto _ (fun _ => rfl) (fun _ => rfl) held
    · cases Option.some.inj h
      exact fun fd opened => heldGoto _ (fun _ => rfl) (fun _ => rfl) (none_ fd opened)
  | strip =>
    simp only [handleClient,pc,Option.some.injEq] at h
    subst t
    exact fun fd opened => heldGoto _ (by cases ok <;> simp [Pc.hasClient]) (by cases ok <;> simp [Pc.upstream])
      (none_ fd opened)
  | sendAll =>
    obtain ⟨u,file,_⟩ := inv.sockets w (by rw [pc]; rfl)
    simp only [handleClient,pc,file,Option.some.injEq] at h
    subst t
    intro fd opened
    have held := none_ fd (revised (by rw [file]; simp) opened)
    exact heldGoto _ (by cases ok <;> simp [Pc.hasClient]) (by cases ok <;> simp [Pc.upstream]) held
  | recvHeader =>
    simp only [handleClient,pc] at h
    split at h
    · cases Option.some.inj h
      intro fd opened
      refine @heldMoved s _ w fd (fun v other => by simp [setWorkers,other]) rfl (fun _ named => ?_) (fun same v busy => ⟨same,?_⟩)
        (none_ fd opened)
      · simpa [setWorkers,Pc.hasClient] using named
      · by_cases me : v = w
        · simp [setWorkers,me,Pc.upstream]
        · simpa [setWorkers,me] using busy
    · cases Option.some.inj h
      exact fun fd opened => heldGoto _ (fun _ => rfl) (fun _ => rfl) (none_ fd opened)
  | recvAllForward =>
    simp only [handleClient,pc,Option.some.injEq] at h
    subst t
    obtain ⟨delivered,sent⟩ := delivers s (s.workers w).client.fd ((s.workers w).header ++ s.origin s.serverSock)
    rw [sent]
    exact fun fd opened => heldGoto _ (by cases ok <;> simp [Pc.hasClient])
      (by cases ok <;> simp [Pc.upstream]) (none_ fd opened)
  | closeClientFirst =>
    simp only [handleClient,pc,Option.some.injEq] at h
    subst t
    exact closeClientNoLeak none_ fun _ => rfl
  | closeServerLast =>
    simp only [handleClient,pc,Option.some.injEq] at h
    subst t
    exact closeServerNoLeak none_ (by simp [pc,Pc.hasClient])
  | closeServer =>
    simp only [handleClient,pc,Option.some.injEq] at h
    subst t
    exact closeServerNoLeak none_ fun _ => rfl
  | closeClient =>
    simp only [handleClient,pc,Option.some.injEq] at h
    subst t
    exact closeClientNoLeak none_ (by simp [pc,Pc.upstream])

theorem stepNoLeak {numThreads : Nat} {e : Event} (inv : Inv s ∧ NoLeak s) (alone : SocketAlone s e)
    (h : step numThreads s e = some t) : Inv t ∧ NoLeak t := by
  refine ⟨stepInv inv.1 alone h,?_⟩
  cases e with
  | accept fd dest => exact acceptNoLeak inv.2 h
  | work w fd ok =>
    simp only [step] at h
    split at h <;> try contradiction
    exact handleClientNoLeak inv.1 inv.2 alone h

/- The socket whose descriptor is overwritten stays open, and nobody has its number. -/
theorem overlapLeaks {numThreads : Nat} {e : Event} (inv : Inv s) (overlap : ¬ SocketAlone s e)
    (h : step numThreads s e = some t) : ¬ NoLeak t := by
  cases e with
  | accept fd dest => exact absurd trivial overlap
  | work w fd ok =>
    simp only [SocketAlone,not_forall] at overlap
    obtain ⟨pc,v,_,busy⟩ := overlap
    obtain ⟨u,file,_⟩ := inv.sockets v (by simpa using busy)
    have client : ∀ x, (s.workers x).pc.hasClient = true → (s.workers x).client.fd ≠ s.serverSock := fun x has same => by
      have found := inv.clients x has
      rw [same,file] at found
      simp at found
    have waiting : ∀ c ∈ s.list, c.fd ≠ s.serverSock := fun c mem same => by
      have found := inv.queued c mem
      rw [same,file] at found
      simp at found
    have lost : ∀ {x : State} {next : Pc}, x.workers = s.workers → x.list = s.list → x.files s.serverSock ≠ none →
        x.serverSock ≠ s.serverSock → ¬ NoLeak (x.goto w next) := by
      intro x next workers list opened other none_
      rcases none_ s.serverSock opened with ⟨y,has,named⟩ | ⟨c,mem,named⟩ | ⟨named,_⟩
      · by_cases me : y = w
        · subst me
          rw [gotoMine,workers] at named
          exact client y (by rw [pc]; rfl) named
        · rw [gotoOthers next y me,workers] at has named
          exact client y has named
      · exact waiting c (list ▸ mem) named
      · exact other named
    have open_ : s.files s.serverSock ≠ none := by rw [file]; simp
    simp only [step] at h
    split at h <;> try contradiction
    simp only [handleClient,pc] at h
    split at h
    · cases Option.some.inj h
      refine lost rfl rfl open_ fun same => open_ ?_
      rw [← show (-1 : Int) = s.serverSock from same]
      exact inv.negative (-1) (by decide)
    · split at h <;> try contradiction
      rename_i free
      cases Option.some.inj h
      have other : s.serverSock ≠ fd := fun same => open_ (same ▸ free)
      exact lost rfl rfl (by simpa [State.put,Function.update,other] using open_) other.symm

end

/-- Nothing the proxy has open is lost to it, and when it is quiet it has closed everything, as
long as no worker calls `socket` while another still has `serverSock` to close. Where one does,
a descriptor is lost at once. -/
theorem descriptorsExact {numThreads : Nat} {events : List Event} {t : State}
    (ran : run (step numThreads) initial events = some t) :
    (Throughout (step numThreads) NoLeak initial events ↔ Along (step numThreads) SocketAlone initial events) ∧
    (Along (step numThreads) SocketAlone initial events → Quiet t → ∀ fd, t.files fd = none) := by
  have start : Inv initial ∧ NoLeak initial := ⟨initialInv,fun _ opened => absurd rfl opened⟩
  have exact : Throughout (step numThreads) NoLeak initial events ↔ Along (step numThreads) SocketAlone initial events :=
    throughoutExact start (fun _ _ _ inv alone h => stepNoLeak inv alone h) (fun _ inv => inv.2)
      (fun _ _ _ inv overlap h => overlapLeaks inv.1 overlap h) ran
  exact ⟨exact,fun alone quiet => quietClosed (throughoutLast ran (exact.mpr alone)) quiet⟩

def served : List Event :=
  [.accept 4 10,.accept 5 20,.work 0 0 true,.work 0 0 true,.work 0 6 true,.work 0 0 true,.work 0 0 true,.work 0 0 true,
    .work 0 0 true,.work 0 0 true,.work 0 0 true,.work 0 0 true,.work 1 0 true,.work 1 0 false,.work 1 0 true]

theorem descriptorsExactServed : ∃ t, run (step 2) initial served = some t ∧
    (Throughout (step 2) NoLeak initial served ↔ Along (step 2) SocketAlone initial served) ∧
    (Along (step 2) SocketAlone initial served → Quiet t → ∀ fd, t.files fd = none) :=
  ⟨_,rfl,descriptorsExact rfl⟩

end IttyBittyServer.Descriptors
