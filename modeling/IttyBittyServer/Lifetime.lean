import IttyBittyServer.Startup

/-! Starts and clean shutdowns of the server and the proxy, in any order and any number of
times, and the proxy's requests over shared memory. Each side unlinks its objects by name,
whatever the names refer to by then, and no flag is ever set back. -/
namespace IttyBittyServer.Lifetime
open Run Startup

/- `passed` are the workers that sharedProxy's test of serverFlag has let through. -/
structure State where
  shared : Startup.State
  passed : List Nat

def initial : State := ⟨Startup.initial,[]⟩

inductive Event where
  | start (e : Startup.Event)
  | serverDestroyList
  | serverDestroyMeta
  | proxyStop
  | proxyDestroyList
  | proxyDestroyMeta
  | test (w : Nat)
  | post (w : Nat) (found : Bool)
  deriving DecidableEq, Repr

def unlinkList (s : Startup.State) : Startup.State :=
  { s with objects := { s.objects with listName := none } }

def unlinkMeta (s : Startup.State) : Startup.State :=
  { s with objects := { s.objects with metaName := none } }

/- A process stops once its workers are joined; nothing distinguishes what `post` writes. -/
def step (s : State) : Event → Option State
  | .start e => do
    let shared ← Startup.step s.shared e
    some { s with shared }
  | .serverDestroyList =>
    match s.shared.server with
    | .on _ m => some { s with shared := { unlinkList s.shared with server := .destroyMeta m } }
    | _ => none
  | .serverDestroyMeta =>
    match s.shared.server with
    | .destroyMeta _ => some { s with shared := { unlinkMeta s.shared with server := .off } }
    | _ => none
  | .proxyStop =>
    match s.shared.proxy,s.passed with
    | .on _ m,[] => some { s with shared := { s.shared with
        proxy := if (s.shared.objects.metas m).serverFlag = .offline then .destroyList m else .off } }
    | _,_ => none
  | .proxyDestroyList =>
    match s.shared.proxy with
    | .destroyList m => some { s with shared := { unlinkList s.shared with proxy := .destroyMeta m } }
    | _ => none
  | .proxyDestroyMeta =>
    match s.shared.proxy with
    | .destroyMeta _ => some { s with shared := { unlinkMeta s.shared with proxy := .off } }
    | _ => none
  | .test w =>
    match s.shared.proxy with
    | .on _ m =>
      if w ∈ s.passed then none
      else if (s.shared.objects.metas m).serverFlag = .offline then some s
      else some { s with passed := w::s.passed }
    | _ => none
  | .post w _ => if w ∈ s.passed then some { s with passed := s.passed.erase w } else none

def Online (s : Startup.State) (m : Nat) : Prop := (s.objects.metas m).serverFlag = .online

def uses : Proxy → Option Nat
  | .test m | .store m | .read m | .list m _ | .flag _ m | .on _ m => some m
  | .off | .destroyList _ | .destroyMeta _ => none

def Live (s : Startup.State) (l m : Nat) : Prop :=
  s.server.shList = some l ∧ s.server.shMeta = some m

def Served (s : State) : Prop := ∀ w ∈ s.passed, ∃ l m, s.shared.proxy = .on l m ∧ Live s.shared l m

def Trusted (s : State) : Prop := ∀ m, uses s.shared.proxy = some m → Online s.shared m →
  ∃ l, Live s.shared l m ∧ ∀ l', s.shared.proxy.shList = some l' → l' = l

/- The server's cleanup begins when no proxy uses its metanode, and no proxy begins to use it
then; and the two do not come together over a metanode with different lists. -/
def orderly (s : State) : Event → Prop
  | .serverDestroyList => ∀ l m, s.shared.server = .on l m → uses s.shared.proxy ≠ some m
  | .start .proxyStart => ∀ m, s.shared.objects.metaName = some m → s.shared.server ≠ .destroyMeta m
  | .start (.proxyList outcome) => ∀ m numNodes l l', s.shared.proxy = .list m numNodes →
    Online s.shared m → s.shared.server.shList = some l →
    (getMemList s.shared.objects numNodes outcome).2 = some l' → l' = l
  | .start .serverFlag => ∀ nodes l m l', s.shared.server = .flag nodes l m →
    uses s.shared.proxy = some m → s.shared.proxy.shList = some l' → l' = l
  | _ => True

def onlineAt : Server → Option Nat
  | .count _ _ m | .on _ m | .destroyMeta m => some m
  | _ => none

structure Inv (s : State) : Prop where
  metaFresh : ∀ m, s.shared.objects.metaName = some m ∨ s.shared.server.shMeta = some m ∨
    s.shared.proxy.shMeta = some m → m < s.shared.objects.fresh
  announced : ∀ m, onlineAt s.shared.server = some m → Online s.shared m
  online : ∀ m, s.shared.objects.metaName = some m → Online s.shared m →
    s.shared.server.shMeta = some m
  passed : s.passed ≠ [] → ∃ l m, s.shared.proxy = .on l m ∧ Online s.shared m

section
variable {s t : State}

theorem initialInv : Inv initial := by
  constructor <;>
    simp [initial,Startup.initial,Server.shMeta,Proxy.shMeta,onlineAt]

inductive Move (s : State) : Event → State → Prop where
  | start {e shared} (moves : Startup.Move s.shared e shared) : Move s (.start e) { s with shared }
  | serverDestroyList {l m} (point : s.shared.server = .on l m) : Move s .serverDestroyList
      { s with shared := { unlinkList s.shared with server := .destroyMeta m } }
  | serverDestroyMeta {m} (point : s.shared.server = .destroyMeta m) : Move s .serverDestroyMeta
      { s with shared := { unlinkMeta s.shared with server := .off } }
  | proxyStop {l m} (point : s.shared.proxy = .on l m) (nobody : s.passed = []) : Move s .proxyStop
      { s with shared := { s.shared with
        proxy := if (s.shared.objects.metas m).serverFlag = .offline then .destroyList m else .off } }
  | proxyDestroyList {m} (point : s.shared.proxy = .destroyList m) : Move s .proxyDestroyList
      { s with shared := { unlinkList s.shared with proxy := .destroyMeta m } }
  | proxyDestroyMeta {m} (point : s.shared.proxy = .destroyMeta m) : Move s .proxyDestroyMeta
      { s with shared := { unlinkMeta s.shared with proxy := .off } }
  | refused {w l m} (point : s.shared.proxy = .on l m)
      (flag : (s.shared.objects.metas m).serverFlag = .offline) : Move s (.test w) s
  | passed {w l m} (point : s.shared.proxy = .on l m)
      (flag : (s.shared.objects.metas m).serverFlag ≠ .offline) : Move s (.test w)
      { s with passed := w::s.passed }
  | post {w found} (mem : w ∈ s.passed) : Move s (.post w found) { s with passed := s.passed.erase w }

theorem stepMove {e : Event} (next : step s e = some t) : Move s e t := by
  cases e with
  | start e =>
    simp only [step,bind,Option.bind_eq_some_iff,Option.some.injEq] at next
    obtain ⟨shared,next,rfl⟩ := next
    exact .start (Startup.stepMove next)
  | serverDestroyList =>
    simp only [step] at next
    split at next <;> try contradiction
    rename_i point
    cases Option.some.inj next
    exact .serverDestroyList point
  | serverDestroyMeta =>
    simp only [step] at next
    split at next <;> try contradiction
    rename_i point
    cases Option.some.inj next
    exact .serverDestroyMeta point
  | proxyStop =>
    simp only [step] at next
    split at next <;> try contradiction
    rename_i point nobody
    cases Option.some.inj next
    exact .proxyStop point nobody
  | proxyDestroyList =>
    simp only [step] at next
    split at next <;> try contradiction
    rename_i point
    cases Option.some.inj next
    exact .proxyDestroyList point
  | proxyDestroyMeta =>
    simp only [step] at next
    split at next <;> try contradiction
    rename_i point
    cases Option.some.inj next
    exact .proxyDestroyMeta point
  | test w =>
    simp only [step] at next
    split at next <;> try contradiction
    rename_i point
    split at next <;> try contradiction
    split at next <;> cases Option.some.inj next
    · exact .refused point (by assumption)
    · exact .passed point (by assumption)
  | post w found =>
    simp only [step] at next
    split at next <;> try contradiction
    cases Option.some.inj next
    exact .post (by assumption)

theorem getMemListFrame (o : Objects) (numNodes : Nat) (outcome : Outcome) :
    (getMemList o numNodes outcome).1.metas = o.metas ∧
    (getMemList o numNodes outcome).1.metaName = o.metaName ∧
    o.fresh ≤ (getMemList o numNodes outcome).1.fresh := by
  unfold getMemList
  cases o.listName with
  | some l => exact ⟨rfl,rfl,Nat.le_refl _⟩
  | none =>
    cases outcome.truncated numNodes with
    | none => exact ⟨rfl,rfl,Nat.le_refl _⟩
    | some size => exact ⟨rfl,rfl,Nat.le_succ _⟩

theorem getMetanodeCases (o : Objects) : o.metaName = some (getMetanode o).2 ∧ (getMetanode o).1 = o ∨
    o.metaName = none ∧ (getMetanode o).2 = o.fresh ∧ (getMetanode o).1 = { o with
      metas := Function.update o.metas o.fresh ⟨.offline,.offline,0⟩
      metaName := some o.fresh
      fresh := o.fresh + 1 } := by
  unfold getMetanode
  cases named : o.metaName with
  | some m => exact .inl ⟨rfl,rfl⟩
  | none => exact .inr ⟨rfl,rfl,rfl⟩

structure Keeps (s t : Startup.State) : Prop where
  fresh : s.objects.fresh ≤ t.objects.fresh
  online : ∀ m, m < s.objects.fresh → (Online t m ↔ Online s m)

theorem keepsSame {s t : Startup.State} (metas : t.objects.metas = s.objects.metas)
    (fresh : t.objects.fresh = s.objects.fresh) : Keeps s t :=
  ⟨Nat.le_of_eq fresh.symm,fun m _ => by simp only [Online,metas]⟩

theorem keepsList {server : Server} {proxy : Proxy} (s : Startup.State) (numNodes : Nat)
    (outcome : Outcome) : Keeps s ⟨(getMemList s.objects numNodes outcome).1,server,proxy⟩ := by
  obtain ⟨metas,_,fresh⟩ := getMemListFrame s.objects numNodes outcome
  exact ⟨fresh,fun m _ => by simp only [Online,metas]⟩

theorem keepsMetanode {server : Server} {proxy : Proxy} (s : Startup.State) :
    Keeps s ⟨(getMetanode s.objects).1,server,proxy⟩ := by
  rcases getMetanodeCases s.objects with ⟨_,same⟩ | ⟨_,_,created⟩
  · exact keepsSame (by rw [same]) (by rw [same])
  · rw [created]
    refine ⟨Nat.le_succ _,fun m known => ?_⟩
    have other : m ≠ s.objects.fresh := Nat.ne_of_lt known
    simp [Online,Function.update,other]

theorem keepsSet {server : Server} {proxy : Proxy} (s : Startup.State) (m : Nat) (node : Metanode)
    (flag : node.serverFlag = (s.objects.metas m).serverFlag) :
    Keeps s ⟨s.objects.setMeta m node,server,proxy⟩ := by
  refine ⟨Nat.le_refl _,fun m' _ => ?_⟩
  by_cases same : m' = m
  · subst same; simp [Online,Objects.setMeta,flag]
  · simp [Online,Objects.setMeta,Function.update,same]

theorem onlineMapped {server : Server} {m : Nat} (announced : onlineAt server = some m) :
    server.shMeta = some m := by
  cases server with
  | off | list | metanode | flag => cases announced
  | count | on | destroyMeta => exact announced

theorem Inv.keep (inv : Inv s) (keeps : Keeps s.shared t.shared)
    (named : t.shared.objects.metaName = none ∨
      t.shared.objects.metaName = s.shared.objects.metaName ∧
        t.shared.server.shMeta = s.shared.server.shMeta)
    (server : ∀ m, t.shared.server.shMeta = some m → s.shared.server.shMeta = some m)
    (announced : ∀ m, onlineAt t.shared.server = some m → onlineAt s.shared.server = some m)
    (proxy : ∀ m, t.shared.proxy.shMeta = some m → s.shared.proxy.shMeta = some m)
    (passed : t.passed ≠ [] → s.passed ≠ [] ∧ t.shared.proxy = s.shared.proxy) : Inv t where
  metaFresh := fun m known => by
    refine Nat.lt_of_lt_of_le (inv.metaFresh m ?_) keeps.fresh
    rcases known with name | known | known
    · rcases named with none_ | same
      · rw [none_] at name; cases name
      · exact .inl (same.1 ▸ name)
    · exact .inr (.inl (server m known))
    · exact .inr (.inr (proxy m known))
  announced := fun m e => by
    have old := announced m e
    exact (keeps.online m (inv.metaFresh m (.inr (.inl (onlineMapped old))))).mpr (inv.announced m old)
  online := fun m name online => by
    rcases named with none_ | same
    · rw [none_] at name; cases name
    · rw [same.2]
      have known := same.1 ▸ name
      exact inv.online m known ((keeps.online m (inv.metaFresh m (.inl known))).mp online)
  passed := fun some_ => by
    obtain ⟨old,same⟩ := passed some_
    obtain ⟨l,m,point,online⟩ := inv.passed old
    refine ⟨l,m,same.trans point,(keeps.online m (inv.metaFresh m (.inr (.inr ?_)))).mpr online⟩
    rw [point]; rfl

theorem Inv.quiet (inv : Inv s) (notYet : ∀ l m, s.shared.proxy ≠ .on l m) : s.passed = [] :=
  Classical.byContradiction fun some_ => by
    obtain ⟨l,m,point,_⟩ := inv.passed some_
    exact notYet l m point

theorem Inv.map (inv : Inv s) {server : Server} {proxy : Proxy}
    (sm : ∀ m, server.shMeta = some m → s.shared.server.shMeta = some m ∨
      m = (getMetanode s.shared.objects).2)
    (kept : ∀ m, s.shared.server.shMeta = some m → server.shMeta = some m)
    (announced : ∀ m, onlineAt server = some m → onlineAt s.shared.server = some m)
    (pm : ∀ m, proxy.shMeta = some m → s.shared.proxy.shMeta = some m ∨
      m = (getMetanode s.shared.objects).2)
    (passed : s.passed ≠ [] → proxy = s.shared.proxy) :
    Inv ⟨⟨(getMetanode s.shared.objects).1,server,proxy⟩,s.passed⟩ := by
  have keeps : Keeps s.shared ⟨(getMetanode s.shared.objects).1,server,proxy⟩ := keepsMetanode _
  have new : (getMetanode s.shared.objects).2 < (getMetanode s.shared.objects).1.fresh := by
    rcases getMetanodeCases s.shared.objects with ⟨name,same⟩ | ⟨_,id,created⟩
    · rw [same]; exact inv.metaFresh _ (.inl name)
    · rw [id,created]; exact Nat.lt_succ_self _
  have old {m : Nat} (known : m < s.shared.objects.fresh) :
      m < (getMetanode s.shared.objects).1.fresh := Nat.lt_of_lt_of_le known keeps.fresh
  exact {
    metaFresh := fun m known => by
      rcases known with name | known | known
      · rw [show m = (getMetanode s.shared.objects).2 from
          Option.some.inj (name.symm.trans (getMetanodeNamed _))]
        exact new
      · rcases sm m known with mapped | rfl
        · exact old (inv.metaFresh m (.inr (.inl mapped)))
        · exact new
      · rcases pm m known with mapped | rfl
        · exact old (inv.metaFresh m (.inr (.inr mapped)))
        · exact new
    announced := fun m e => by
      have before := announced m e
      have known := inv.metaFresh m (.inr (.inl (onlineMapped before)))
      exact (keeps.online m known).mpr (inv.announced m before)
    online := fun m name online => by
      rcases getMetanodeCases s.shared.objects with ⟨_,same⟩ | ⟨_,_,created⟩
      · rw [same] at name
        exact kept m (inv.online m name (by simpa only [Online,same] using online))
      · rw [created] at name
        cases name
        simp [Online,created] at online
    passed := fun some_ => by
      obtain ⟨l,m,point,online⟩ := inv.passed some_
      refine ⟨l,m,(passed some_).trans point,?_⟩
      refine (keeps.online m (inv.metaFresh m (.inr (.inr ?_)))).mpr online
      rw [point]; rfl }

theorem setOnline {m : Nat} {server : Server} {proxy : Proxy} (m' : Nat) :
    Online ⟨s.shared.objects.setMeta m { s.shared.objects.metas m with serverFlag := .online },
      server,proxy⟩ m' ↔ m' = m ∨ Online s.shared m' := by
  by_cases same : m' = m
  · subst same; simp [Online,Objects.setMeta]
  · simp [Online,Objects.setMeta,Function.update,same]

theorem startInv {e : Startup.Event} {shared : Startup.State} (inv : Inv s)
    (moves : Startup.Move s.shared e shared) : Inv ⟨shared,s.passed⟩ := by
  cases moves with
  | serverStart free =>
    exact inv.keep (keepsSame rfl rfl) (.inr ⟨rfl,by simp [free,Server.shMeta]⟩) (by simp [Server.shMeta])
      (by simp [onlineAt]) (fun _ e => e) (fun some_ => ⟨some_,rfl⟩)
  | serverList point =>
    exact inv.keep (keepsList _ _ _) (.inr ⟨(getMemListFrame _ _ _).2.1,by rw [point]; rfl⟩)
      (by simp [Server.shMeta]) (by simp [onlineAt]) (fun _ e => e) (fun some_ => ⟨some_,rfl⟩)
  | @serverUnlisted _ again _ point =>
    cases again <;>
      exact inv.keep (keepsList _ _ _) (.inr ⟨(getMemListFrame _ _ _).2.1,by rw [point]; rfl⟩)
        (by simp [Server.shMeta]) (by simp [onlineAt]) (fun _ e => e) (fun some_ => ⟨some_,rfl⟩)
  | serverMeta point =>
    exact inv.map (fun m e => .inr (by cases e; rfl)) (fun m e => by rw [point] at e; cases e)
      (by simp [onlineAt]) (fun m e => .inl e) (fun _ => rfl)
  | @serverFlag nodes l m point =>
    exact {
      metaFresh := fun m' known => inv.metaFresh m' (known.imp_right fun rest => rest.imp_left
        fun e => by rw [point]; exact e)
      announced := fun m' e => (setOnline m').mpr (.inl (by cases e; rfl))
      online := fun m' name online => by
        rcases (setOnline m').mp online with rfl | old
        · rfl
        · have owner := inv.online m' name old
          rw [point] at owner
          exact owner
      passed := fun some_ => by
        obtain ⟨l',m',on,online⟩ := inv.passed some_
        exact ⟨l',m',on,(setOnline m').mpr (.inr online)⟩ }
  | serverCount point =>
    exact inv.keep (keepsSet _ _ _ rfl) (.inr ⟨rfl,by rw [point]; rfl⟩)
      (fun m e => by rw [point]; exact e) (fun m e => by rw [point]; exact e)
      (fun _ e => e) (fun some_ => ⟨some_,rfl⟩)
  | proxyStart free =>
    have quiet := inv.quiet (by simp [free])
    exact inv.map (fun m e => .inl e) (fun m e => e) (fun m e => e)
      (fun m e => .inr (by cases e; rfl)) (fun some_ => absurd quiet some_)
  | proxyOffline point | proxyOnline point | proxyRead point =>
    have quiet := inv.quiet (by simp [point])
    exact inv.keep (keepsSame rfl rfl) (.inr ⟨rfl,rfl⟩) (fun _ e => e) (fun _ e => e)
      (fun a e => by rw [point]; exact e) (fun some_ => absurd quiet some_)
  | proxyStore point | proxyFlag point =>
    have quiet := inv.quiet (by simp [point])
    exact inv.keep (keepsSet _ _ _ rfl) (.inr ⟨rfl,rfl⟩) (fun _ e => e) (fun _ e => e)
      (fun a e => by rw [point]; exact e) (fun some_ => absurd quiet some_)
  | proxyList point =>
    have quiet := inv.quiet (by simp [point])
    exact inv.keep (keepsList _ _ _) (.inr ⟨(getMemListFrame _ _ _).2.1,rfl⟩) (fun _ e => e)
      (fun _ e => e) (fun a e => by rw [point]; exact e) (fun some_ => absurd quiet some_)
  | proxyUnlisted point =>
    have quiet := inv.quiet (by simp [point])
    exact inv.keep (keepsList _ _ _) (.inr ⟨(getMemListFrame _ _ _).2.1,rfl⟩) (fun _ e => e)
      (fun _ e => e) (by simp [Proxy.shMeta]) (fun some_ => absurd quiet some_)

theorem stepInv {e : Event} (inv : Inv s) (next : step s e = some t) : Inv t := by
  cases stepMove next with
  | start moves => exact startInv inv moves
  | serverDestroyList point =>
    exact inv.keep (keepsSame rfl rfl) (.inr ⟨rfl,by rw [point]; rfl⟩) (fun a e => by rw [point]; exact e)
      (fun a e => by rw [point]; exact e) (fun _ e => e) (fun some_ => ⟨some_,rfl⟩)
  | serverDestroyMeta =>
    exact inv.keep (keepsSame rfl rfl) (.inl rfl) (fun _ e => by cases e) (fun _ e => by cases e)
      (fun _ e => e) (fun some_ => ⟨some_,rfl⟩)
  | proxyStop point nobody =>
    exact inv.keep (keepsSame rfl rfl) (.inr ⟨rfl,rfl⟩) (fun _ e => e) (fun _ e => e)
      (fun a e => by
        rw [point]
        dsimp only at e
        split at e
        · exact e
        · cases e) (fun some_ => absurd nobody some_)
  | proxyDestroyList point =>
    have quiet := inv.quiet (by simp [point])
    exact inv.keep (keepsSame rfl rfl) (.inr ⟨rfl,rfl⟩) (fun _ e => e) (fun _ e => e)
      (fun a e => by rw [point]; exact e) (fun some_ => absurd quiet some_)
  | proxyDestroyMeta point =>
    have quiet := inv.quiet (by simp [point])
    exact inv.keep (keepsSame rfl rfl) (.inl rfl) (fun _ e => e) (fun _ e => e)
      (fun a e => by cases e) (fun some_ => absurd quiet some_)
  | refused => exact inv
  | @passed w l m point flag =>
    have online : Online s.shared m := by
      unfold Online
      cases announced : (s.shared.objects.metas m).serverFlag with
      | offline => exact absurd announced flag
      | online => rfl
    exact { inv with passed := fun _ => ⟨l,m,point,online⟩ }
  | post mem =>
    exact inv.keep (keepsSame rfl rfl) (.inr ⟨rfl,rfl⟩) (fun _ e => e) (fun _ e => e) (fun _ e => e)
      (fun _ => ⟨List.ne_nil_of_mem mem,rfl⟩)

theorem trustedKept (trusted : Trusted s) (uses_ : ∀ m, uses t.shared.proxy = some m →
      Online t.shared m → uses s.shared.proxy = some m ∧ Online s.shared m)
    (live : ∀ l m, Live s.shared l m → Live t.shared l m)
    (lists : ∀ l, t.shared.proxy.shList = some l → s.shared.proxy.shList = some l) : Trusted t := by
  intro m use online
  obtain ⟨before,was⟩ := uses_ m use online
  obtain ⟨l,alive,same⟩ := trusted m before was
  exact ⟨l,live l m alive,fun l' e => same l' (lists l' e)⟩

theorem usesMapped {proxy : Proxy} {m : Nat} (use : uses proxy = some m) : proxy.shMeta = some m := by
  cases proxy <;> simp_all [uses,Proxy.shMeta]

/- Where the server has its metanode but not its list, it is in its cleanup. -/
theorem mappedList {server : Server} {m : Nat} (mapped : server.shMeta = some m)
    (here : server ≠ .destroyMeta m) : ∃ l, server.shList = some l := by
  cases server <;> simp_all [Server.shMeta,Server.shList]

theorem startTrusted {e : Startup.Event} {shared : Startup.State} (inv : Inv s) (trusted : Trusted s)
    (held : orderly s (.start e)) (moves : Startup.Move s.shared e shared) :
    Trusted ⟨shared,s.passed⟩ := by
  have known {m : Nat} (use : uses s.shared.proxy = some m) : m < s.shared.objects.fresh :=
    inv.metaFresh m (.inr (.inr (usesMapped use)))
  cases moves with
  | serverStart free =>
    exact trustedKept trusted (fun m use online => ⟨use,online⟩)
      (fun l m live => by simp [Live,free,Server.shList] at live) (fun _ e => e)
  | serverList point | serverUnlisted point =>
    exact trustedKept trusted
      (fun m use online => ⟨use,((keepsList s.shared _ _).online m (known use)).mp online⟩)
      (fun l m live => by simp [Live,point,Server.shList] at live) (fun _ e => e)
  | serverMeta point =>
    exact trustedKept trusted
      (fun m use online => ⟨use,((keepsMetanode s.shared).online m (known use)).mp online⟩)
      (fun l m live => by simp [Live,point,Server.shMeta] at live) (fun _ e => e)
  | @serverFlag nodes l m point =>
    intro m' use online
    rcases (setOnline m').mp online with rfl | old
    · exact ⟨l,⟨rfl,rfl⟩,fun l' e => held nodes l m' l' point use e⟩
    · obtain ⟨l',live,same⟩ := trusted m' use old
      unfold Live at live
      rw [point] at live
      exact ⟨l',live,same⟩
  | serverCount point =>
    exact trustedKept trusted
      (fun m' use online => ⟨use,((keepsSet s.shared _ _ (by rfl)).online m' (known use)).mp online⟩)
      (fun l' m' live => by unfold Live at live; rw [point] at live; exact live) (fun _ e => e)
  | proxyStart =>
    intro m use online
    cases use
    rcases getMetanodeCases s.shared.objects with ⟨name,same⟩ | ⟨_,id,created⟩
    · have was : Online s.shared (getMetanode s.shared.objects).2 := by
        simpa only [Online,same] using online
      have mapped := inv.online _ name was
      obtain ⟨l,list⟩ := mappedList mapped (held _ name)
      exact ⟨l,⟨list,mapped⟩,fun l' e => by cases e⟩
    · simp [Online,created,id] at online
  | proxyOffline point | proxyOnline point | proxyRead point =>
    exact trustedKept trusted (fun m' use online => ⟨by rw [point]; exact use,online⟩)
      (fun _ _ live => live) (fun l' e => by cases e)
  | @proxyStore m point =>
    have before : uses s.shared.proxy = some m := by rw [point]; rfl
    exact trustedKept trusted
      (fun m' use online => by
        cases use
        exact ⟨before,((keepsSet s.shared _ _ (by rfl)).online m (known before)).mp online⟩)
      (fun _ _ live => live) (fun l' e => by cases e)
  | @proxyList m numNodes outcome l' point got =>
    have before : uses s.shared.proxy = some m := by rw [point]; rfl
    intro m' use online
    cases use
    have was := ((keepsList s.shared numNodes outcome).online m (known before)).mp online
    obtain ⟨l,live,_⟩ := trusted m before was
    refine ⟨l,live,fun l'' e => ?_⟩
    cases e
    exact held m numNodes l l' point was live.1 got
  | proxyUnlisted =>
    intro m' use
    cases use
  | @proxyFlag l m point =>
    have before : uses s.shared.proxy = some m := by rw [point]; rfl
    exact trustedKept trusted
      (fun m' use online => by
        cases use
        exact ⟨before,((keepsSet s.shared _ _ (by rfl)).online m (known before)).mp online⟩)
      (fun _ _ live => live) (fun l' e => by rw [point]; exact e)

theorem stepTrusted {e : Event} (inv : Inv s) (trusted : Trusted s) (held : orderly s e)
    (next : step s e = some t) : Trusted t := by
  cases stepMove next with
  | start moves => exact startTrusted inv trusted held moves
  | @serverDestroyList l m point =>
    intro m' use online
    obtain ⟨l',live,_⟩ := trusted m' use online
    unfold Live at live
    rw [point] at live
    cases live.2
    exact absurd use (held l m point)
  | serverDestroyMeta point =>
    exact trustedKept trusted (fun _ use online => ⟨use,online⟩)
      (fun l m' live => by simp [Live,point,Server.shList] at live) (fun _ e => e)
  | proxyStop =>
    intro m' use
    dsimp only at use
    split at use <;> cases use
  | proxyDestroyList | proxyDestroyMeta =>
    intro m' use
    cases use
  | refused | passed | post => exact trusted

/- What is out of order leaves a proxy that would trust a flag nobody stands behind. -/
theorem misled {e : Event} (inv : Inv s) (broken : ¬ orderly s e) (next : step s e = some t) :
    ¬ Trusted t := by
  intro trusted
  cases e with
  | serverDestroyList =>
    simp only [orderly,not_forall,not_not] at broken
    obtain ⟨l,m,point,use⟩ := broken
    simp only [step,point] at next
    cases Option.some.inj next
    obtain ⟨l',live,_⟩ := trusted m use (inv.announced m (by rw [point]; rfl))
    cases live.1
  | start e =>
    simp only [step,bind,Option.bind_eq_some_iff,Option.some.injEq] at next
    obtain ⟨shared,next,rfl⟩ := next
    cases e with
    | proxyStart =>
      simp only [orderly,not_forall,not_not] at broken
      obtain ⟨m,name,point⟩ := broken
      simp only [Startup.step] at next
      split at next <;> try contradiction
      cases Option.some.inj next
      have online := inv.announced m (by rw [point]; rfl)
      rcases getMetanodeCases s.shared.objects with ⟨same,kept⟩ | ⟨none_,_⟩
      · cases name.symm.trans same
        obtain ⟨l,live,_⟩ := trusted _ rfl (by simpa only [Online,kept] using online)
        have list := live.1
        dsimp only at list
        rw [point] at list
        cases list
      · rw [name] at none_; cases none_
    | proxyList outcome =>
      simp only [orderly,not_forall] at broken
      obtain ⟨m,numNodes,l,l',point,online,list,got,other⟩ := broken
      simp only [Startup.step,point,got] at next
      cases Option.some.inj next
      have known := inv.metaFresh m (.inr (.inr (by rw [point]; rfl)))
      obtain ⟨l'',live,same⟩ := trusted m rfl
        (((keepsList s.shared numNodes outcome).online m known).mpr online)
      have mine := same l' rfl
      exact other (mine.trans (Option.some.inj (live.1.symm.trans list)))
    | serverFlag =>
      simp only [orderly,not_forall] at broken
      obtain ⟨nodes,l,m,l',point,use,list,other⟩ := broken
      simp only [Startup.step,point] at next
      cases Option.some.inj next
      obtain ⟨l'',live,same⟩ := trusted m use ((setOnline m).mpr (.inl rfl))
      cases live.1
      exact other (same l' list)
    | _ => exact broken trivial
  | _ => exact broken trivial

theorem Inv.served (inv : Inv s) (trusted : Trusted s) : Served s := by
  intro w mem
  obtain ⟨l,m,point,online⟩ := inv.passed (List.ne_nil_of_mem mem)
  obtain ⟨l',live,same⟩ := trusted m (by rw [point]; rfl) online
  cases same l (by rw [point]; rfl)
  exact ⟨l,m,point,live⟩

end

theorem servedExact {es : List Event} {s : State} (ran : run step initial es = some s) :
    (Throughout step Trusted initial es ↔ Along step orderly initial es) ∧
    (Along step orderly initial es → Throughout step Served initial es) := by
  have start : Inv initial ∧ Trusted initial := ⟨initialInv,fun m use => by cases use⟩
  exact ⟨@throughoutExact _ _ step orderly (fun s => Inv s ∧ Trusted s) Trusted initial es s start
      (fun _ _ _ inv held next => ⟨stepInv inv.1 next,stepTrusted inv.1 inv.2 held next⟩)
      (fun _ inv => inv.2) (fun _ _ _ inv broken next => misled inv.1 broken next) ran,
    fun held => @throughoutKept _ _ step orderly (fun s => Inv s ∧ Trusted s) Served initial es start
      (fun _ _ _ inv held next => ⟨stepInv inv.1 next,stepTrusted inv.1 inv.2 held next⟩)
      (fun _ inv => inv.1.served inv.2) held⟩

def bothUp : List Event := (serverUp 1 ++ proxyUp).map .start

theorem servedTwice : ∃ s, run step initial (bothUp ++ [.test 0,.post 0 true,.proxyStop] ++
      proxyUp.map .start ++ [.test 1]) = some s ∧ s.passed = [1] ∧
    (Throughout step Trusted initial (bothUp ++ [.test 0,.post 0 true,.proxyStop] ++
      proxyUp.map .start ++ [.test 1]) ↔ Along step orderly initial (bothUp ++
        [.test 0,.post 0 true,.proxyStop] ++ proxyUp.map .start ++ [.test 1])) ∧
    (Along step orderly initial (bothUp ++ [.test 0,.post 0 true,.proxyStop] ++
      proxyUp.map .start ++ [.test 1]) → Throughout step Served initial (bothUp ++
        [.test 0,.post 0 true,.proxyStop] ++ proxyUp.map .start ++ [.test 1])) := by
  have ran : ((run step initial (bothUp ++ [.test 0,.post 0 true,.proxyStop] ++
      proxyUp.map .start ++ [.test 1])).map fun s => s.passed) = some [1] := by decide +kernel
  obtain ⟨s,hs,passed⟩ := Option.map_eq_some_iff.mp ran
  exact ⟨s,hs,passed,servedExact hs⟩

theorem deadServer : ∃ s, run step initial (bothUp ++
      [.serverDestroyList,.serverDestroyMeta,.test 0]) = some s ∧ s.shared.server = .off ∧
    s.passed = [0] ∧ ¬ Served s := by
  have ran : ((run step initial (bothUp ++ [.serverDestroyList,.serverDestroyMeta,.test 0])).map
      fun s => (s.shared.server,s.passed)) = some (.off,[0]) := by decide +kernel
  obtain ⟨s,hs,same⟩ := Option.map_eq_some_iff.mp ran
  obtain ⟨server,passed⟩ := Prod.mk.inj same
  refine ⟨s,hs,server,passed,fun served => ?_⟩
  obtain ⟨l,m,_,live⟩ := served 0 (by rw [passed]; exact List.mem_singleton_self 0)
  have list := live.1
  rw [server] at list
  cases list

end IttyBittyServer.Lifetime
