import IttyBittyServer.Coupling

/-! What has crossed the segment while a proxy worker and a server worker share it. What
a reader has, and the chunk it has still to read, are together what the other side has
written: of the response all of it, of the request all but `lost`. -/
namespace IttyBittyServer.Transfer
open MemList ProcessShared Rendezvous Coupling

def chunk (node : Memnode) : List UInt8 := node.mem.take node.spaceUsed

def unread (reader posted : Pending) (node : Memnode) : List UInt8 :=
  if posted = reader then chunk node else []

def posts (c : Waiter) (x : Proxy) (y : Server) : Pending :=
  pending x.pc x.sending.more c y.pc

def lost (x : Proxy) : Nat :=
  if x.skipped = true ∧ segmentSize < x.request.length then segmentSize else 0

structure Coupled (p i : Nat) (c : Waiter) (node : Memnode) (x : Proxy) (y : Server)
    (replied : Option (List UInt8 × List UInt8)) : Prop where
  control : Control p i c node x y
  asked : x.sending.data = x.request
  filled : posts c x y ≠ .nothing → node.spaceUsed ≠ 0
  line : engaged x.pc y.pc = true → y.line ++ unread .request (posts c x y) node =
    (x.request.take x.sending.totalBytes).drop (if early y.pc = true then 0 else lost x)
  first : early y.pc = true → y.line = [] ∧ x.sending.totalBytes =
    if posts c x y = .request then min segmentSize x.request.length else 0
  passed : engaged x.pc y.pc = true → early y.pc = false → lost x ≤ x.sending.totalBytes
  opens : opening x.pc = true → x.skipped = false
  ahead : early y.pc = true → opening x.pc = false → x.skipped = true
  silent : unanswered y.pc x.pc = true → x.received = []
  received : isSend y.pc = true → inReply x.pc = true →
    x.received ++ unread .response (posts c x y) node = y.sending.data.take y.sending.totalBytes
  reply : isSend y.pc = true → inReply x.pc = true → replied = some (y.line,y.sending.data)
  finished : closing x.pc = true → replied = some (x.request.drop (lost x),x.received)

section
variable {p i : Nat} {c c' : Waiter} {node next : Memnode} {x x' : Proxy} {y y' : Server}
  {replied : Option (List UInt8 × List UInt8)} {woken : Tid}

theorem chunkMapped {data : List UInt8} : chunk (setMapping node data) = data := by
  simp [chunk,setMapping]

theorem receiveFilled (full : node.spaceUsed ≠ 0) : receiveShared node = some (chunk node) := by
  simp [receiveShared,full,chunk]

theorem sendFrame {me : Tid} {x x' : Send} {pc pc' : SendPC} (sends : SendMove me woken node x pc next pc' x') :
    x'.data = x.data ∧ (pc ≠ .map → x'.totalBytes = x.totalBytes ∧ next.mem = node.mem ∧
      next.spaceUsed = node.spaceUsed) := by
  cases sends with
  | signal woke =>
    obtain rfl := signalExact woke
    simp
  | waiting got =>
    obtain ⟨_,_,rfl⟩ := acquireExact got
    simp
  | _ => simp [condWait]

theorem proxyFrame {sent : Nat} (step : sharedProxy p woken sent node x = some (next,x')) :
    x'.request = x.request ∧ x'.sending.data = x.sending.data ∧
    (x'.skipped = x.skipped ∧ (x.pc = .testInit → x'.pc = .waitInit) ∨
      x.pc = .testInit ∧ x'.pc = .send .role ∧ x'.skipped = true) ∧
    (x.pc ≠ .read → x'.received = x.received) ∧
    (x.pc ≠ .send .map → x'.sending.totalBytes = x.sending.totalBytes ∧
      (x.pc ≠ .forward → next.mem = node.mem ∧ next.spaceUsed = node.spaceUsed)) := by
  cases proxyMove step with
  | lock point got
  | waitingInit point got
  | recvWaiting point got =>
    obtain ⟨_,_,rfl⟩ := acquireExact got
    simp [point]
  | signal point woke =>
    obtain rfl := signalExact woke
    simp [point]
  | send point sends =>
    obtain ⟨data,frame⟩ := sendFrame sends
    rw [point]
    refine ⟨rfl,data,.inl ⟨rfl,fun e => by cases e⟩,fun _ => rfl,fun other => ?_⟩
    obtain ⟨total,segment⟩ := frame fun e => other (by rw [e])
    exact ⟨total,fun _ => segment⟩
  | post point
  | waits point
  | skips point
  | waitInit point
  | returned point
  | recvTest point
  | recvWait point
  | read point
  | fails point
  | forward point
  | again point
  | unlock point
  | reset point => simp [point,condWait,release]

theorem serverFrame {header body : List UInt8}
    (step : handleClient i woken header body node y = some (next,y')) :
    (y.pc ≠ .read → y'.line = y.line) ∧
    (y.pc ≠ .respond → y'.sending.data = y.sending.data ∧
      (y.pc ≠ .send .map → y'.sending.totalBytes = y.sending.totalBytes)) ∧
    (y.pc ≠ .send .map → next.mem = node.mem ∧ next.spaceUsed = node.spaceUsed) := by
  cases serverMove step with
  | lock point got
  | recvWaiting point got =>
    obtain ⟨_,_,rfl⟩ := acquireExact got
    simp
  | signalInit point woke
  | signal point woke =>
    obtain rfl := signalExact woke
    simp
  | send point sends =>
    obtain ⟨data,frame⟩ := sendFrame sends
    rw [point]
    refine ⟨fun _ => rfl,fun _ => ⟨data,fun other => ?_⟩,fun other => ?_⟩
    · exact (frame fun e => other (by rw [e])).1
    · exact (frame fun e => other (by rw [e])).2
  | read point
  | respond point => simp [point]
  | _ => simp [condWait,release]

theorem sentAll {s : Send} {isServer : Bool} (waits : sendAt s isServer .waiting)
    (last : s.more = false) : s.totalBytes = s.data.length := by
  have notMore : ¬ s.totalBytes < s.data.length := fun l => by simp [moreExact.mpr l] at last
  exact Nat.le_antisymm waits.2.1 (Nat.le_of_not_lt notMore)

/- When the proxy leaves its loop, it has all of the answer to what the server has read. -/
theorem Coupled.lastChunk (h : Coupled p i c node x y replied) (last : x.pc = .again)
    (done : y.sending.more = false) :
    replied = some (x.request.drop (lost x),x.received) := by
  obtain ⟨waits,empty⟩ := h.control.law.proxyEnds last
  have sendingServer : isSend y.pc = true := by rw [waits]; rfl
  have replying : inReply x.pc = true := by rw [last]; rfl
  have lineAll := h.line (by rw [waits,last]; rfl)
  have receivedAll := h.received sendingServer replying
  have serverAll : y.sending.totalBytes = y.sending.data.length :=
    sentAll (by simpa [Coupling.serverAt,waits] using h.control.serverAt) done
  have here : sendAt x.sending false .returned := by
    simpa [Coupling.proxyAt,last] using h.control.proxyAt
  have proxyAll : x.sending.totalBytes = x.request.length := h.asked ▸ here.2
  have quiet : posts c x y = .nothing := empty
  simp only [quiet,unread,reduceCtorEq,if_false,List.append_nil,serverAll,proxyAll,
    List.take_length,waits,early,Bool.false_eq_true] at lineAll receivedAll
  rw [h.reply sendingServer replying,lineAll,receivedAll]

theorem Coupled.soFar {line response : List UInt8} (h : Coupled p i c node x y replied)
    (replying : inReply x.pc = true) (answered : replied = some (line,response)) :
    x.received <+: response := by
  rcases h.control.law.replies replying with sends | silent | closed
  · obtain ⟨rfl,rfl⟩ := Prod.mk.inj (Option.some.inj (answered.symm.trans (h.reply sends replying)))
    have received := h.received sends replying
    exact (List.prefix_append _ _).trans (received ▸ List.take_prefix _ _)
  · simp [h.silent silent]
  · obtain ⟨rfl,rfl⟩ := Prod.mk.inj (Option.some.inj (answered.symm.trans (h.finished closed)))
    exact List.prefix_refl _

theorem Coupled.proxyOther {sent : Nat} (h : Coupled p i c node x y replied)
    (step : sharedProxy p woken sent node x = some (next,x')) (control : Control p i c' next x' y)
    (moved : (x'.pc,x'.sending.more,c') ∈ proxyNext x.sending.more c y.sending.more y.pc x.pc)
    (noMap : x.pc ≠ .send .map) (noRead : x.pc ≠ .read) :
    Coupled p i c' next x' y replied := by
  have law := h.control.law
  obtain ⟨request,data,skips,same,keeps⟩ := proxyFrame step
  have received := same noRead
  obtain ⟨total,stays⟩ := keeps noMap
  have posted : posts c' x' y = posts c x y := law.proxyKeeps _ moved noMap noRead
  have memory : posts c x y ≠ .nothing → next.mem = node.mem ∧ next.spaceUsed = node.spaceUsed :=
    fun some_ => stays fun e => some_ (law.proxyForwards e)
  have shown {reader} (real : reader ≠ Pending.nothing) :
      unread reader (posts c' x' y) next = unread reader (posts c x y) node := by
    rw [posted]
    unfold unread
    split
    · rename_i e
      have kept := memory (e ▸ real)
      simp [chunk,kept]
    · rfl
  have loses : x.pc ≠ .testInit → lost x' = lost x := by
    intro e
    rcases skips with kept | skipping
    · simp [lost,kept.1,request]
    · exact absurd skipping.1 e
  exact {
    control
    asked := by rw [data,request,h.asked]
    filled := fun some_ => by
      rw [posted] at some_
      rw [(memory some_).2]
      exact h.filled some_
    line := fun e => by
      have before := law.proxyEngaged _ moved e
      rw [shown (by simp),h.line before,request,total]
      by_cases test : x.pc = .testInit
      · simp [law.testsEarly test before]
      · rw [loses test]
    first := fun e => by rw [posted,total,request]; exact h.first e
    passed := fun e late => by
      have before := law.proxyEngaged _ moved e
      have test : x.pc ≠ .testInit := fun test => by simp [law.testsEarly test before] at late
      rw [loses test,total]
      exact h.passed before late
    opens := fun e => by
      rcases skips with kept | skipping
      · rw [kept.1]; exact h.opens (law.proxyOpens _ moved e)
      · simp [skipping.2.1,opening] at e
    ahead := fun e gone => by
      rcases skips with kept | skipping
      · rw [kept.1]
        refine h.ahead e (law.proxySkips _ moved e gone fun test => ?_)
        simp [kept.2 test,opening] at gone
      · exact skipping.2.2
    silent := fun e => by rw [received]; exact h.silent (law.proxyUnanswered _ moved e)
    received := fun e f => by
      rw [shown (by simp),received]
      exact h.received e (law.proxyReplied _ moved e f)
    reply := fun e f => h.reply e (law.proxyReplied _ moved e f)
    finished := fun e => by
      by_cases last : x.pc = .again
      · have done : y.sending.more = false := by
          have moved := moved
          simp only [last,proxyNext,List.mem_singleton,Prod.mk.injEq] at moved
          cases more : y.sending.more with
          | false => rfl
          | true => simp [moved.1,more,closing] at e
        rw [loses (by simp [last]),request,received]
        exact h.lastChunk last done
      · have before := law.proxyCloses _ moved e last
        have test : x.pc ≠ .testInit := fun test => by simp [test,closing] at before
        rw [loses test,request,received]
        exact h.finished before }

theorem takeMore (s : Send) : s.data.take (s.totalBytes + s.toWrite) =
    s.data.take s.totalBytes ++ (s.data.drop s.totalBytes).take s.toWrite :=
  List.take_add

theorem writesSome {s : Send} (more : s.totalBytes < s.data.length) : s.toWrite ≠ 0 := by
  rw [toWriteExact]
  unfold segmentSize
  omega

theorem writtenLength (s : Send) : ((s.data.drop s.totalBytes).take s.toWrite).length = s.toWrite := by
  rw [List.length_take,List.length_drop,toWriteExact]
  omega

theorem Coupled.proxyMap {sent : Nat} (h : Coupled p i c node x y replied)
    (step : sharedProxy p woken sent node x = some (next,x')) (control : Control p i c' next x' y)
    (moved : (x'.pc,x'.sending.more,c') ∈ proxyNext x.sending.more c y.sending.more y.pc x.pc)
    (point : x.pc = .send .map) : Coupled p i c' next x' y replied := by
  have law := h.control.law
  have here : sendAt x.sending false .map := by
    simpa [Coupling.proxyAt,point] using h.control.proxyAt
  obtain ⟨empty,fills⟩ := law.proxyMaps point
  obtain rfl : c' = c := by
    simp only [point,proxyNext,List.mem_cons,Prod.mk.injEq,List.not_mem_nil,or_false] at moved
    rcases moved with m | m <;> exact m.2.2
  unfold sharedProxy at step
  simp only [point,sendShared,bind,Option.bind_some,Option.some.injEq,Prod.mk.injEq] at step
  obtain ⟨rfl,rfl⟩ := step
  have nothing : posts c' x y = .nothing := empty
  have full (s : Send) : posts c' { x with pc := .send .mark, sending := s } y = .request := fills _
  have size := writtenLength x.sending
  exact {
    control
    asked := h.asked
    filled := fun _ => by
      simp only [setMapping,size]
      exact writesSome here.2
    line := fun e => by
      have before : engaged x.pc y.pc = true := law.proxyEngaged _ moved e
      have soFar := h.line before
      simp only [nothing,unread,reduceCtorEq,if_false,List.append_nil] at soFar
      simp only [full,unread,if_true,chunkMapped]
      have within : (if early y.pc = true then 0 else lost x) ≤
          (x.request.take x.sending.totalBytes).length := by
        have below := here.2
        rw [h.asked] at below
        split
        · omega
        · rename_i late
          have := h.passed before (by simpa using late)
          rw [List.length_take]
          omega
      show y.line ++ _ = (x.request.take (x.sending.totalBytes + x.sending.toWrite)).drop
        (if early y.pc = true then 0 else lost x)
      rw [soFar,← h.asked,takeMore,h.asked,List.drop_append_of_le_length within]
    first := fun e => by
      have start := h.first e
      rw [nothing] at start
      simp only [reduceCtorEq,if_false] at start
      refine ⟨start.1,?_⟩
      simp only [full,if_true,start.2,Nat.zero_add,toWriteExact,h.asked,Nat.sub_zero]
    passed := fun e late => by
      have before : engaged x.pc y.pc = true := law.proxyEngaged _ moved e
      exact Nat.le_trans (h.passed before late) (Nat.le_add_right _ _)
    opens := fun e => by simp [opening] at e
    ahead := fun e _ => h.ahead e (by simp [point,opening])
    silent := fun _ => h.silent (by simp [point,unanswered])
    received := fun _ f => by simp [inReply] at f
    reply := fun _ f => by simp [inReply] at f
    finished := fun e => by simp [closing] at e }

theorem Coupled.proxyRead {sent : Nat} (h : Coupled p i c node x y replied)
    (step : sharedProxy p woken sent node x = some (next,x')) (control : Control p i c' next x' y)
    (moved : (x'.pc,x'.sending.more,c') ∈ proxyNext x.sending.more c y.sending.more y.pc x.pc)
    (point : x.pc = .read) : Coupled p i c' next x' y replied := by
  obtain ⟨waits,posted,empty⟩ := h.control.law.proxyReads point
  have full : node.spaceUsed ≠ 0 := h.filled (by simp [posts,posted])
  obtain rfl : c' = c := by
    simp only [point,proxyNext,List.mem_singleton,Prod.mk.injEq] at moved
    exact moved.2.2
  unfold sharedProxy at step
  simp only [point,receiveFilled full,Option.some.injEq,Prod.mk.injEq] at step
  obtain ⟨rfl,rfl⟩ := step
  have before : posts c' x y = .response := posted
  have nothing (s : List UInt8) : posts c' { x with pc := .forward, received := s } y = .nothing :=
    empty
  have replying : inReply x.pc = true := by rw [point]; rfl
  exact {
    control
    asked := h.asked
    filled := fun e => absurd (nothing _) e
    line := fun _ => by
      have line := h.line (by rw [waits,point]; rfl)
      simp only [before,unread,reduceCtorEq,if_false] at line
      simp only [nothing,unread,reduceCtorEq,if_false]
      exact line
    first := fun e => by simp [waits,early] at e
    passed := fun _ late => h.passed (by rw [waits,point]; rfl) late
    opens := fun e => by simp [opening] at e
    ahead := fun e => by simp [waits,early] at e
    silent := fun e => by simp [unanswered,opening] at e
    received := fun e _ => by
      have received := h.received e replying
      simp only [before,unread,if_true] at received
      simp only [nothing,unread,reduceCtorEq,if_false,List.append_nil]
      exact received
    reply := fun e _ => h.reply e replying
    finished := fun e => by simp [closing] at e }

theorem proxyCoupled {sent : Nat} (h : Coupled p i c node x y replied)
    (step : sharedProxy p woken sent node x = some (next,x')) :
    ∃ c', Coupled p i c' next x' y replied := by
  have filled : x.pc = .read → node.spaceUsed ≠ 0 := fun e =>
    h.filled (by simp [posts,(h.control.law.proxyReads e).2.1])
  obtain ⟨c',control,moved⟩ := proxyControl h.control filled step
  by_cases maps : x.pc = .send .map
  · exact ⟨c',h.proxyMap step control moved maps⟩
  · by_cases reads : x.pc = .read
    · exact ⟨c',h.proxyRead step control moved reads⟩
    · exact ⟨c',h.proxyOther step control moved maps reads⟩

theorem Coupled.serverOther {header body : List UInt8} (h : Coupled p i c node x y replied)
    (step : handleClient i woken header body node y = some (next,y'))
    (control : Control p i c' next x y')
    (moved : (y'.pc,y'.sending.more,c') ∈ serverNext x.pc c y.sending.more y.pc)
    (noMap : y.pc ≠ .send .map) (noRead : y.pc ≠ .read) (noSignal : y.pc ≠ .signalInit)
    (noAnswer : y.pc ≠ .respond) : Coupled p i c' next x y' replied := by
  have law := h.control.law
  obtain ⟨reads,sends,stays⟩ := serverFrame step
  have line := reads noRead
  obtain ⟨data,counts⟩ := sends noAnswer
  have total := counts noMap
  have memory := stays noMap
  have posted : posts c' x y' = posts c x y := law.serverKeeps _ moved noMap noRead noSignal
  have shown (reader : Pending) :
      unread reader (posts c' x y') next = unread reader (posts c x y) node := by
    simp [posted,unread,chunk,memory]
  exact {
    control
    asked := h.asked
    filled := fun some_ => by rw [memory.2]; exact h.filled (posted ▸ some_)
    line := fun e => by
      have kept : early y'.pc = early y.pc := law.serverEarly _ moved noSignal e
      rw [shown,line,kept]
      exact h.line (law.serverEngaged _ moved e)
    first := fun e => by rw [posted,line]; exact h.first (law.serverFirst _ moved e)
    passed := fun e late => by
      have kept : early y'.pc = early y.pc := law.serverEarly _ moved noSignal e
      exact h.passed (law.serverEngaged _ moved e) (kept ▸ late)
    opens := h.opens
    ahead := fun e => h.ahead (law.serverFirst _ moved e)
    silent := fun e => h.silent (law.serverUnanswered _ moved e)
    received := fun e f => by
      rw [shown,data,total]
      exact h.received (law.serverReplied _ moved e noAnswer) f
    reply := fun e f => by
      rw [line,data]
      exact h.reply (law.serverReplied _ moved e noAnswer) f
    finished := h.finished }

/- The first signal finds the proxy at one of its three waits; at the one between two
chunks it is taken for the signal that the chunk has been read. -/
theorem Coupled.serverSignal {header body : List UInt8} (h : Coupled p i c node x y replied)
    (step : handleClient i woken header body node y = some (next,y'))
    (control : Control p i c' next x y')
    (moved : (y'.pc,y'.sending.more,c') ∈ serverNext x.pc c y.sending.more y.pc)
    (point : y.pc = .signalInit) : Coupled p i c' next x y' replied := by
  have law := h.control.law
  obtain ⟨waits,stands⟩ := law.firstSignal point
  obtain rfl : c' = .nobody := by
    simp only [point,serverNext,List.mem_singleton,Prod.mk.injEq] at moved
    exact moved.2.2
  have after : y'.pc = .recvTest := by
    simp only [point,serverNext,List.mem_singleton,Prod.mk.injEq] at moved
    exact moved.1
  obtain ⟨reads,_,stays⟩ := serverFrame step
  have line := reads (by simp [point])
  have memory := stays (by simp [point])
  obtain ⟨empty,total⟩ := h.first (by rw [point]; rfl)
  have late : early y.pc = true := by rw [point]; rfl
  have loses : x.pc = .recvWaiting ∧ posts c x y = .request ∧ lost x = 0 ∨
      x.pc ≠ .recvWaiting ∧ x.sending.totalBytes = lost x := by
    rcases stands with init | between | last
    · have nothing : posts c x y = .nothing := by
        simp [posts,pending,requestPosted,init,point]
      have skipped := h.opens (by rw [init]; rfl)
      exact .inr ⟨by simp [init],by simp [total,nothing,lost,skipped]⟩
    · have full : posts c x y = .request := by
        simp [posts,pending,requestPosted,between,point,waits]
      have place : sendAt x.sending false .waiting := by
        simpa [Coupling.proxyAt,between] using h.control.proxyAt
      have below := place.2.2 rfl
      have skipped := h.ahead late (by rw [between]; rfl)
      rw [h.asked] at below
      simp only [full,if_true] at total
      refine .inr ⟨by simp [between],?_⟩
      simp only [lost,skipped,true_and]
      split <;> omega
    · have full : posts c x y = .request := by
        simp [posts,pending,requestPosted,last,point]
      have here : sendAt x.sending false .returned := by
        simpa [Coupling.proxyAt,last] using h.control.proxyAt
      have place : x.sending.totalBytes = x.request.length := h.asked ▸ here.2
      simp only [full,if_true] at total
      refine .inl ⟨last,full,?_⟩
      simp only [lost]
      split <;> omega
  have posted : posts .nobody x y' = if x.pc = .recvWaiting then .request else .nothing := by
    rcases stands with e | e | e <;> simp [posts,pending,requestPosted,after,e]
  have unanswering : isSend y'.pc = false := by rw [after]; rfl
  have whole := h.line (by rw [point]; rfl)
  rw [if_pos late,List.drop_zero] at whole
  exact {
    control
    asked := h.asked
    filled := fun some_ => by
      rw [posted] at some_
      rw [memory.2]
      rcases loses with ⟨_,full,_⟩ | ⟨other,_⟩
      · exact h.filled (by simp [full])
      · simp [other] at some_
    line := fun _ => by
      rw [line,posted,after]
      rcases loses with ⟨last,full,nil⟩ | ⟨other,all⟩
      · rw [full] at whole
        simpa [last,nil,unread,chunk,memory,early] using whole
      · simp [other,empty,unread,early,all]
    first := fun e => by simp [after,early] at e
    passed := fun _ _ => by
      rcases loses with ⟨_,_,nil⟩ | ⟨_,all⟩ <;> omega
    opens := h.opens
    ahead := fun e => by simp [after,early] at e
    silent := fun e => h.silent (law.serverUnanswered _ moved e)
    received := fun e => by simp [unanswering] at e
    reply := fun e => by simp [unanswering] at e
    finished := h.finished }

theorem Coupled.copyFits (h : Coupled p i c node x y replied) (reads : y.pc = .read) :
    (y.line ++ chunk node).length ≤ x.request.length := by
  have line := h.line (by rw [reads]; rfl)
  have posted : posts c x y = .request := (h.control.law.serverReads reads).1
  rw [posted,unread,if_pos rfl] at line
  rw [line]
  exact Nat.le_trans (List.drop_suffix _ _).length_le (List.length_take_le' _ _)

theorem Coupled.serverRead {header body : List UInt8} (h : Coupled p i c node x y replied)
    (step : handleClient i woken header body node y = some (next,y'))
    (control : Control p i c' next x y')
    (moved : (y'.pc,y'.sending.more,c') ∈ serverNext x.pc c y.sending.more y.pc)
    (point : y.pc = .read) : Coupled p i c' next x y' replied := by
  have law := h.control.law
  obtain ⟨posted,empty⟩ := law.serverReads point
  have full : node.spaceUsed ≠ 0 := h.filled (by simp [posts,posted])
  obtain rfl : c' = c := by
    simp only [point,serverNext,List.mem_singleton,Prod.mk.injEq] at moved
    exact moved.2.2
  have unanswered := law.serverUnanswered _ moved
  unfold handleClient at step
  simp only [point,receiveFilled full,Option.some.injEq,Prod.mk.injEq] at step
  obtain ⟨rfl,rfl⟩ := step
  have before : posts c' x y = .request := posted
  have nothing (s : List UInt8) : posts c' x { y with pc := .signalTest, line := s } = .nothing :=
    empty
  have inLoop : engaged x.pc y.pc = true := by rw [point]; rfl
  have late : early y.pc = false := by rw [point]; rfl
  exact {
    control
    asked := h.asked
    filled := fun e => absurd (nothing _) e
    line := fun _ => by
      have line := h.line inLoop
      simp only [before,unread,if_true,late,Bool.false_eq_true,if_false] at line
      simp only [nothing,unread,reduceCtorEq,if_false,List.append_nil,line]
      rfl
    first := fun e => by simp [early] at e
    passed := fun _ _ => h.passed inLoop late
    opens := h.opens
    ahead := fun e => by simp [early] at e
    silent := fun e => h.silent (unanswered e)
    received := fun e => by simp [isSend] at e
    reply := fun e => by simp [isSend] at e
    finished := h.finished }

theorem Coupled.serverRespond {header body : List UInt8} (h : Coupled p i c node x y replied)
    (step : handleClient i woken header body node y = some (next,y'))
    (control : Control p i c' next x y')
    (moved : (y'.pc,y'.sending.more,c') ∈ serverNext x.pc c y.sending.more y.pc)
    (point : y.pc = .respond) : Coupled p i c' next x y' (some (y.line,header ++ body)) := by
  have last := h.control.law.responds point
  obtain rfl : c' = c := by
    simp only [point,serverNext,List.mem_singleton,Prod.mk.injEq] at moved
    exact moved.2.2
  unfold handleClient at step
  simp only [point] at step
  split at step <;> try contradiction
  simp only [Option.some.injEq,Prod.mk.injEq] at step
  obtain ⟨rfl,rfl⟩ := step
  have before : posts c' x y = .nothing := by simp [posts,pending,point]
  have nothing (s : Send) : posts c' x { y with pc := .send .role, sending := s } = .nothing := rfl
  exact {
    control
    asked := h.asked
    filled := fun e => absurd (nothing _) e
    line := fun _ => by
      have line := h.line (by rw [point]; rfl)
      simp only [before,unread,reduceCtorEq,if_false,point,early,Bool.false_eq_true] at line
      simp only [nothing,unread,reduceCtorEq,if_false,line]
      rfl
    first := fun e => by simp [early] at e
    passed := fun _ _ => h.passed (by rw [point]; rfl) (by rw [point]; rfl)
    opens := h.opens
    ahead := fun e => by simp [early] at e
    silent := fun e => by simp [last,unanswered,isSend] at e
    received := fun _ _ => by
      have silent := h.silent (by rw [point,last]; rfl)
      simp only [nothing,unread,reduceCtorEq,if_false,silent]
      rfl
    reply := fun _ _ => rfl
    finished := fun e => by simp [last,closing] at e }

theorem Coupled.serverMap {header body : List UInt8} (h : Coupled p i c node x y replied)
    (step : handleClient i woken header body node y = some (next,y'))
    (control : Control p i c' next x y')
    (moved : (y'.pc,y'.sending.more,c') ∈ serverNext x.pc c y.sending.more y.pc)
    (point : y.pc = .send .map) : Coupled p i c' next x y' replied := by
  have law := h.control.law
  have here : sendAt y.sending true .map := by
    simpa [Coupling.serverAt,point] using h.control.serverAt
  obtain ⟨replying,empty,fills⟩ := law.serverMaps point
  obtain rfl : c' = c := by
    simp only [point,serverNext,List.mem_cons,Prod.mk.injEq,List.not_mem_nil,or_false] at moved
    rcases moved with m | m <;> exact m.2.2
  unfold handleClient at step
  simp only [point,sendShared,bind,Option.bind_some,Option.some.injEq,Prod.mk.injEq] at step
  obtain ⟨rfl,rfl⟩ := step
  have nothing : posts c' x y = .nothing := empty
  have full (s : Send) : posts c' x { y with pc := .send .mark, sending := s } = .response := fills
  have size := writtenLength y.sending
  have sendingServer : isSend y.pc = true := by rw [point]; rfl
  have line := h.line (by rw [point]; exact replying)
  have received := h.received sendingServer replying
  simp only [nothing,unread,reduceCtorEq,if_false,List.append_nil,point,early,Bool.false_eq_true]
    at line received
  exact {
    control
    asked := h.asked
    filled := fun _ => by
      simp only [setMapping,size]
      exact writesSome here.2
    line := fun _ => by
      simp only [full,unread,reduceCtorEq,if_false,List.append_nil]
      exact line
    first := fun e => by simp [early] at e
    passed := fun _ _ => h.passed (by rw [point]; exact replying) (by rw [point]; rfl)
    opens := h.opens
    ahead := fun e => by simp [early] at e
    silent := fun e => h.silent (by rw [point]; exact e)
    received := fun _ _ => by
      simp only [full,unread,if_true,chunkMapped,received]
      exact (takeMore y.sending).symm
    reply := fun _ f => h.reply sendingServer f
    finished := h.finished }

theorem serverCoupled {header body : List UInt8} (h : Coupled p i c node x y replied)
    (step : handleClient i woken header body node y = some (next,y')) :
    ∃ c', Coupled p i c' next x y'
      (if y.pc = .respond then some (y.line,header ++ body) else replied) := by
  have filled : y.pc = .read → node.spaceUsed ≠ 0 := fun e =>
    h.filled (by simp [posts,(h.control.law.serverReads e).1])
  obtain ⟨c',control,moved⟩ := serverControl h.control filled step
  refine ⟨c',?_⟩
  by_cases answers : y.pc = .respond
  · rw [if_pos answers]
    exact h.serverRespond step control moved answers
  · rw [if_neg answers]
    by_cases maps : y.pc = .send .map
    · exact h.serverMap step control moved maps
    · by_cases reads : y.pc = .read
      · exact h.serverRead step control moved reads
      · by_cases signals : y.pc = .signalInit
        · exact h.serverSignal step control moved signals
        · exact h.serverOther step control moved maps reads signals answers

theorem createdCoupled : Coupled p i .nobody created Proxy.rest Server.rest none where
  control := ⟨by decide,rfl,rfl,rfl,rfl,trivial,trivial⟩
  asked := rfl
  filled := fun e => absurd rfl e
  line := fun e => by cases e
  first := fun e => by cases e
  passed := fun e => by cases e
  opens := fun e => by cases e
  ahead := fun e => by cases e
  silent := fun e => by cases e
  received := fun e => by cases e
  reply := fun e => by cases e
  finished := fun e => by cases e

theorem startCoupled {p' : Nat} {request : List UInt8} (h : Coupled p i c node x y replied)
    (idle : x.pc = .idle) (some_ : request ≠ []) :
    Coupled p' i c node (Proxy.start request) y none := by
  have law := h.control.law
  obtain ⟨rfl,notEarly,apart,opens⟩ := law.starts idle
  have flag := h.control.proxyFlag
  have mutex := h.control.mutex
  rw [idle] at flag mutex
  have nothing : posts .nobody (Proxy.start request) y = .nothing := (opens _).2
  exact {
    control := ⟨(opens _).1,h.control.condition,mutex,flag,h.control.serverFlag,
      ⟨rfl,by simpa [Proxy.start,Send.call] using some_⟩,h.control.serverAt⟩
    asked := List.append_nil request
    filled := fun e => absurd nothing e
    line := fun e => by cases apart.symm.trans e
    first := fun e => by cases notEarly.symm.trans e
    passed := fun e => by cases apart.symm.trans e
    opens := fun _ => rfl
    ahead := fun e => by cases notEarly.symm.trans e
    silent := fun _ => rfl
    received := fun _ e => by cases e
    reply := fun _ e => by cases e
    finished := fun e => by cases e }

theorem markedCoupled {s : StateT} (h : Coupled p i c node x y replied) (idle : y.pc = .idle)
    (s_ : s = .idle ∨ s = .busy) : Coupled p i c { node with serverState := s } x y replied :=
  { h with
    control := { h.control with
      serverFlag := by rcases s_ with rfl | rfl <;> simp [idle,Rendezvous.serverFlag] } }

theorem claimCoupled {i' : Nat} (h : Coupled p i c node x y replied) (idle : y.pc = .idle)
    (posted : node.proxyState = .waitingInitSrvr) (busy : node.serverState = .busy) :
    Coupled p i' c node x Server.start replied := by
  obtain ⟨unwaited,claims⟩ := h.control.law.claims idle
  obtain ⟨opens,empty,met⟩ := claims _ h.control.proxyFlag posted
  have mutex := h.control.mutex
  have place := h.control.proxyAt
  rw [idle] at mutex
  have nothing : posts c x Server.start = .nothing := empty
  have total : x.sending.totalBytes = 0 := by
    unfold Coupling.proxyAt at place
    cases point : x.pc <;> simp_all [opening,sendAt]
  exact {
    control := ⟨met _,by cases c <;> simp_all [h.control.condition,waiters],mutex,h.control.proxyFlag,
      by rw [busy]; rfl,h.control.proxyAt,trivial⟩
    asked := h.asked
    filled := fun e => absurd nothing e
    line := fun _ => by rw [nothing,total]; rfl
    first := fun _ => ⟨rfl,by simp [nothing,total]⟩
    passed := fun _ e => by cases e
    opens := h.opens
    ahead := fun _ e => by cases opens.symm.trans e
    silent := fun _ => h.silent (by
      unfold unanswered
      cases point : x.pc <;> simp_all [opening])
    received := fun e => by cases e
    reply := fun e => by cases e
    finished := h.finished }

end

end IttyBittyServer.Transfer
