import ProxyLane.Hook.UdpRouting

/-!
# The states of the local UDP ports

The task manager keeps, for every port number, the client whose route has that
port.  There is one entry for both address families, and a task that is closed
stays in the list until a timer removes it.  This file finds the runs in which
the table says of every port whether a live route has it.
-/

namespace ProxyLane.Hook

open ProxyLane.Foundation

/-! ## The table -/

structure UDPLocalProxyAddrInfo where
  clientip : InAddr
  clientport : UInt16
  proxyport : UInt16
  deriving DecidableEq, Repr

def UDPLocalProxyAddrInfo.zero : UDPLocalProxyAddrInfo := ⟨.any, 0, 0⟩

abbrev PortState := UInt16 → UDPLocalProxyAddrInfo

structure UDPPortMgr where
  mgr : UDPTaskMgr
  portState : PortState

namespace UDPPortMgr

open UdpProxyTask

def initial : UDPPortMgr := ⟨⟨[]⟩, fun _ => .zero⟩

def portOf (route : UdpRoute) : UInt16 := route.client.udpAddr.getPort

def entryOf (client : PrcClient) : UDPLocalProxyAddrInfo :=
  ⟨client.srcAddr.getdwIP, client.srcAddr.getPort, client.udpAddr.getPort⟩

def registerRoutePort (client : PrcClient) (states : PortState) : PortState :=
  fun port =>
    if port = client.udpAddr.getPort then entryOf client else states port

/-- One round of the loop of `ClearTaskPortStates`. -/
def clearRoute (states : PortState) (route : UdpRoute) : PortState :=
  let routePort := portOf route
  if (states routePort).proxyport = routePort then
    fun port => if port = routePort then .zero else states port
  else states

def clearTaskPortStates (states : PortState) (task : UdpProxyTask) : PortState :=
  task.routes.foldl clearRoute states

def getUDPPortState (s : UDPPortMgr) (info : UDPLocalProxyAddrInfo) : Bool :=
  let state := s.portState info.proxyport
  if state.proxyport = 0 then false
  else state.clientip == info.clientip && state.clientport == info.clientport

/-! ## Operations -/

/-- What `OnNewTask` removes first. -/
def isStale (client : PrcClient) (proxyInfo : ProxyInfo) (task : UdpProxyTask) :
    Bool :=
  task.matchesAssociation client proxyInfo && task.isClosed

/-- The task that `OnNewTask` adds the route to, if it makes no new one. -/
def chosenTask (client : PrcClient) (proxyInfo : ProxyInfo)
    (tasks : List UdpProxyTask) : Option UdpProxyTask :=
  (tasks.find? fun task => task.matchesAssociation client proxyInfo &&
    task.hasRoute client).or
  (tasks.find? fun task => task.matchesAssociation client proxyInfo &&
    task.canAcceptRoute client)

/-- What `AddRoute` writes to `udpAddr` of the client. -/
def routeAddress (task : Option UdpProxyTask) (client : PrcClient)
    (socket : Option SockAddr) : Option SockAddr :=
  match task.bind fun task =>
      splitRoute (getUdpDestination client) task.routes with
  | some (_, it, _) => if it.peerOpen then some it.client.udpAddr else socket
  | none => socket

/-- `OnNewTask`: the tasks as in the manager without the table. -/
def onNewTask (s : UDPPortMgr) (client : PrcClient) (proxyInfo : ProxyInfo)
    (canStart : Bool) (socket : Option SockAddr) : Bool × UDPPortMgr :=
  let (ok, mgr) := s.mgr.onNewTask client proxyInfo canStart socket
  if !canStart then (ok, ⟨mgr, s.portState⟩)
  else
    let stale := s.mgr.tasklist.filter (isStale client proxyInfo)
    let tasks := s.mgr.tasklist.filter fun task => !isStale client proxyInfo task
    let states := stale.foldl clearTaskPortStates s.portState
    match ok, routeAddress (chosenTask client proxyInfo tasks) client socket with
    | true, some address =>
      (ok, ⟨mgr, registerRoutePort { client with udpAddr := address } states⟩)
    | _, _ => (ok, ⟨mgr, states⟩)

def isOf (client : PrcClient) (task : UdpProxyTask) : Bool :=
  task.prcClient.dwPid == client.dwPid &&
    task.prcClient.processCreateTime == client.processCreateTime &&
    task.prcClient.socketGeneration == client.socketGeneration &&
    task.prcClient.s == client.s

def killTasks (s : UDPPortMgr) (client : PrcClient) : UDPPortMgr :=
  { mgr := ⟨s.mgr.tasklist.map fun task =>
      if isOf client task then task.closeTask else task⟩
    portState :=
      (s.mgr.tasklist.filter (isOf client)).foldl clearTaskPortStates s.portState }

/-- `RemoveTask` of the task at a position of the list. -/
def removeTask (s : UDPPortMgr) (i : Nat) : UDPPortMgr :=
  { mgr := ⟨s.mgr.tasklist.eraseIdx i⟩
    portState := (s.mgr.tasklist[i]?.toList).foldl clearTaskPortStates s.portState }

/-- What happens to the manager, with `KillTasks` next to what its routes and
tasks are subject to. -/
inductive PortEvent where
  | task (event : UdpEvent)
  | kill (client : PrcClient)

def step (s : UDPPortMgr) : PortEvent → UDPPortMgr
  | .task (.register r) =>
    (s.onNewTask r.redirected r.proxyInfo r.canStart r.socket).2
  | .task (.remove i) => s.removeTask i
  | .task event => ⟨s.mgr.step event, s.portState⟩
  | .kill client => s.killTasks client

def HasLiveRoute (s : UDPPortMgr) (info : UDPLocalProxyAddrInfo) : Prop :=
  ∃ task ∈ s.mgr.tasklist, ∃ route ∈ task.routes, route.peerOpen = true ∧
    route.client.srcAddr.getdwIP = info.clientip ∧
    route.client.srcAddr.getPort = info.clientport ∧
    portOf route = info.proxyport

def SparesOthers (s : UDPPortMgr) : Prop :=
  ∀ i, ∀ task ∈ s.mgr.tasklist.eraseIdx i, ∀ route ∈ task.routes,
    route.peerOpen = true →
    (s.removeTask i).portState (portOf route) = s.portState (portOf route)

/-- A new local socket has a port number that no route in the list has, and
no task with a live route is closed but by `KillTasks`. -/
def Clean (s : UDPPortMgr) : PortEvent → Prop
  | .task (.register r) => ∀ address ∈ r.socket, address.getPort ≠ 0 ∧
      ∀ task ∈ s.mgr.tasklist, isStale r.redirected r.proxyInfo task = false →
        ∀ route ∈ task.routes, portOf route ≠ address.getPort
  | .task (.close i) => ∀ task ∈ s.mgr.tasklist[i]?, ∀ route ∈ task.routes,
      route.peerOpen = false
  | _ => True

instance (s : UDPPortMgr) (info : UDPLocalProxyAddrInfo) :
    Decidable (HasLiveRoute s info) :=
  inferInstanceAs (Decidable (∃ task ∈ s.mgr.tasklist, _))

instance (s : UDPPortMgr) : ∀ event, Decidable (Clean s event)
  | .task (.register r) => inferInstanceAs (Decidable (∀ address ∈ r.socket, _))
  | .task (.close i) => inferInstanceAs (Decidable (∀ task ∈ s.mgr.tasklist[i]?, _))
  | .task (.remove _) | .task (.server _ _) | .task (.clientDatagram _ _ _)
  | .task (.quic _ _ _) | .kill _ => .isTrue trivial

/-! ## Routes and the table -/

structure Owned (routes : List UdpRoute) (states : PortState) : Prop where
  nodup : (routes.map portOf).Nodup
  port_ne : ∀ route ∈ routes, portOf route ≠ 0
  live : ∀ route ∈ routes, route.peerOpen = true →
    states (portOf route) = entryOf route.client
  entry : ∀ port, states port = .zero ∨
    ∃ route ∈ routes, route.peerOpen = true ∧ portOf route = port

theorem owned_initial : Owned [] (fun _ => .zero) :=
  ⟨List.nodup_nil, by simp, by simp, fun _ => .inl rfl⟩

variable {states : PortState} {routes : List UdpRoute}

theorem Owned.kept (h : Owned routes states) (port : UInt16) :
    states port = .zero ∨ (states port).proxyport = port := by
  rcases h.entry port with hzero | ⟨route, hmem, hopen, rfl⟩
  · exact .inl hzero
  · right
    rw [h.live route hmem hopen]
    rfl

theorem foldl_clearRoute
    (hkept : ∀ port, states port = .zero ∨ (states port).proxyport = port)
    (gone : List UdpRoute) (port : UInt16) :
    gone.foldl clearRoute states port =
      if port ∈ gone.map portOf then .zero else states port := by
  induction gone generalizing states with
  | nil => simp
  | cons route gone ih =>
    have hround : ∀ port, clearRoute states route port =
        if port = portOf route then .zero else states port := by
      intro port
      by_cases hset : (states (portOf route)).proxyport = portOf route
      · exact congrFun (if_pos hset) port
      · have hzero := (hkept (portOf route)).resolve_right hset
        refine (congrFun (if_neg hset) port).trans ?_
        by_cases hport : port = portOf route <;> simp [hport, hzero]
    have hkept' : ∀ port, clearRoute states route port = .zero ∨
        (clearRoute states route port).proxyport = port := by
      intro port
      rw [hround]
      split
      · exact .inl rfl
      · exact hkept port
    rw [List.foldl_cons, ih hkept', hround]
    by_cases hport : port = portOf route <;>
      by_cases hmem : port ∈ gone.map portOf <;> simp [hport, hmem]

theorem foldl_clearTask (tasks : List UdpProxyTask) (states : PortState) :
    tasks.foldl clearTaskPortStates states =
      (tasks.flatMap UdpProxyTask.routes).foldl clearRoute states := by
  induction tasks generalizing states with
  | nil => rfl
  | cons task tasks ih =>
    rw [List.foldl_cons, ih, List.flatMap_cons, List.foldl_append]
    rfl

theorem Owned.retire {routes' gone : List UdpRoute}
    (h : Owned routes states)
    (hnodup : (routes'.map portOf).Nodup)
    (hold : ∀ route' ∈ routes', ∃ route ∈ routes,
      portOf route = portOf route' ∧ (route'.peerOpen = true →
        route.peerOpen = true ∧ entryOf route.client = entryOf route'.client ∧
          portOf route' ∉ gone.map portOf))
    (hcover : ∀ route ∈ routes, route.peerOpen = true →
      portOf route ∈ gone.map portOf ∨
        ∃ route' ∈ routes', route'.peerOpen = true ∧ portOf route' = portOf route) :
    Owned routes' (gone.foldl clearRoute states) where
  nodup := hnodup
  port_ne := by
    intro route' hroute'
    obtain ⟨route, hroute, hport, -⟩ := hold route' hroute'
    exact hport ▸ h.port_ne route hroute
  live := by
    intro route' hroute' hopen'
    obtain ⟨route, hroute, hport, hopen⟩ := hold route' hroute'
    obtain ⟨hopen, hclient, hgone⟩ := hopen hopen'
    rw [foldl_clearRoute h.kept, if_neg hgone, ← hport,
      h.live route hroute hopen, hclient]
  entry := by
    intro port
    rw [foldl_clearRoute h.kept]
    split
    case isTrue => exact .inl rfl
    case isFalse hgone =>
      rcases h.entry port with hzero | ⟨route, hroute, hopen, rfl⟩
      · exact .inl hzero
      · obtain ⟨route', hroute', hopen', hport⟩ :=
          (hcover route hroute hopen).resolve_left hgone
        exact .inr ⟨route', hroute', hopen', hport⟩

theorem Owned.register {routes' : List UdpRoute}
    (h : Owned routes states) {new : UdpRoute}
    (hnodup : (routes'.map portOf).Nodup) (hmem : new ∈ routes')
    (hopen : new.peerOpen = true) (hport : portOf new ≠ 0)
    (hother : ∀ route ∈ routes', route = new ∨ route ∈ routes)
    (hkeep : ∀ route ∈ routes, route.peerOpen = true →
      portOf route = portOf new ∨ route ∈ routes') :
    Owned routes' (registerRoutePort new.client states) where
  nodup := hnodup
  port_ne := by
    intro route hroute
    rcases hother route hroute with rfl | hold
    · exact hport
    · exact h.port_ne route hold
  live := by
    intro route hroute hlive
    by_cases hsame : portOf route = portOf new
    · have heq := List.inj_on_of_nodup_map hnodup hroute hmem hsame
      subst heq
      exact if_pos rfl
    · rcases hother route hroute with rfl | hold
      · exact absurd rfl hsame
      · exact (if_neg hsame).trans (h.live route hold hlive)
  entry := by
    intro port
    by_cases hsame : port = portOf new
    · exact .inr ⟨new, hmem, hopen, hsame.symm⟩
    · rcases h.entry port with hzero | ⟨route, hroute, hlive, rfl⟩
      · exact .inl ((if_neg hsame).trans hzero)
      · exact .inr ⟨route, (hkeep route hroute hlive).resolve_left hsame, hlive, rfl⟩

/-! ## Tasks -/

def routesOf (tasks : List UdpProxyTask) : List UdpRoute :=
  tasks.flatMap UdpProxyTask.routes

theorem mem_routesOf {tasks : List UdpProxyTask} {route : UdpRoute} :
    route ∈ routesOf tasks ↔ ∃ task ∈ tasks, route ∈ task.routes := by
  simp [routesOf]

theorem Owned.remove {tasks gone keep : List UdpProxyTask}
    (h : Owned (routesOf tasks) states) (hperm : (gone ++ keep).Perm tasks) :
    Owned (routesOf keep) (gone.foldl clearTaskPortStates states) := by
  have hroutes : (routesOf gone ++ routesOf keep).Perm (routesOf tasks) := by
    simpa [routesOf] using hperm.flatMap_right UdpProxyTask.routes
  have hnodup := (hroutes.map portOf).nodup_iff.2 h.nodup
  rw [List.map_append, List.nodup_append] at hnodup
  obtain ⟨-, hkeep, hapart⟩ := hnodup
  rw [foldl_clearTask]
  refine h.retire hkeep ?_ ?_
  · intro route hroute
    exact ⟨route, hroutes.subset (List.mem_append_right _ hroute), rfl,
      fun hopen => ⟨hopen, rfl, fun hmem =>
        hapart _ hmem _ (List.mem_map_of_mem hroute) rfl⟩⟩
  · intro route hroute hopen
    rcases List.mem_append.1 (hroutes.symm.subset hroute) with hgone | hstays
    · exact .inl (List.mem_map_of_mem hgone)
    · exact .inr ⟨route, hstays, hopen, rfl⟩

private theorem eraseIdx_perm (tasks : List UdpProxyTask) (i : Nat) :
    (tasks[i]?.toList ++ tasks.eraseIdx i).Perm tasks := by
  by_cases hi : i < tasks.length
  · simpa [hi] using List.getElem_cons_eraseIdx_perm hi
  · rw [List.eraseIdx_of_length_le (Nat.not_lt.1 hi),
      List.getElem?_eq_none (Nat.not_lt.1 hi)]
    exact List.Perm.refl _

variable {s : UDPPortMgr}

theorem Owned.removeTask
    (h : Owned (routesOf s.mgr.tasklist) s.portState) (i : Nat) :
    Owned (routesOf (s.removeTask i).mgr.tasklist) (s.removeTask i).portState :=
  h.remove (eraseIdx_perm _ _)

theorem Owned.sparesOthers
    (h : Owned (routesOf s.mgr.tasklist) s.portState) : SparesOthers s := by
  intro i task htask route hroute hopen
  have hmem : route ∈ routesOf (s.removeTask i).mgr.tasklist :=
    mem_routesOf.2 ⟨task, htask, hroute⟩
  have hold : route ∈ routesOf s.mgr.tasklist :=
    mem_routesOf.2 ⟨task, List.mem_of_mem_eraseIdx htask, hroute⟩
  rw [(h.removeTask i).live route hmem hopen, h.live route hold hopen]

theorem closeTask_routes_port (task : UdpProxyTask) :
    task.closeTask.routes.map portOf = task.routes.map portOf := by
  simp only [closeTask, List.map_map]
  rfl

theorem closeTask_closed {task : UdpProxyTask} {route : UdpRoute}
    (h : route ∈ task.closeTask.routes) : route.peerOpen = false := by
  simp only [closeTask, List.mem_map] at h
  obtain ⟨_, -, rfl⟩ := h
  rfl

theorem Owned.killTasks
    (h : Owned (routesOf s.mgr.tasklist) s.portState) (client : PrcClient) :
    Owned (routesOf (s.killTasks client).mgr.tasklist)
      (s.killTasks client).portState := by
  have hnodup : ∀ tasks : List UdpProxyTask,
      (routesOf (tasks.map fun task =>
        if isOf client task then task.closeTask else task)).map portOf =
      (routesOf tasks).map portOf := by
    intro tasks
    induction tasks with
    | nil => rfl
    | cons task tasks ih =>
      simp only [routesOf, List.map_cons, List.flatMap_cons,
        List.map_append] at ih ⊢
      rw [ih]
      split <;> simp only [closeTask_routes_port]
  have hperm : (routesOf (s.mgr.tasklist.filter (isOf client)) ++
      routesOf (s.mgr.tasklist.filter fun task => !isOf client task)).Perm
      (routesOf s.mgr.tasklist) := by
    simpa [routesOf] using (List.filter_append_perm (isOf client)
      s.mgr.tasklist).flatMap_right UdpProxyTask.routes
  have hports := (hperm.map portOf).nodup_iff.2 h.nodup
  rw [List.map_append, List.nodup_append] at hports
  simp only [UDPPortMgr.killTasks, foldl_clearTask]
  refine h.retire ?_ ?_ ?_
  · rw [hnodup]
    exact h.nodup
  · intro route' hroute'
    obtain ⟨task', htask', hmem⟩ := mem_routesOf.1 hroute'
    obtain ⟨task, htask, rfl⟩ := List.mem_map.1 htask'
    by_cases hof : isOf client task = true
    · rw [if_pos hof] at hmem
      have hclosed := closeTask_closed hmem
      simp only [closeTask, List.mem_map] at hmem
      obtain ⟨route, hroute, rfl⟩ := hmem
      exact ⟨route, mem_routesOf.2 ⟨task, htask, hroute⟩, rfl, by simp⟩
    · rw [if_neg hof] at hmem
      refine ⟨route', mem_routesOf.2 ⟨task, htask, hmem⟩, rfl,
        fun hopen => ⟨hopen, rfl, fun hgone => ?_⟩⟩
      have hstays : route' ∈ routesOf (s.mgr.tasklist.filter fun task =>
          !isOf client task) :=
        mem_routesOf.2 ⟨task, List.mem_filter.2 ⟨htask, by simp [hof]⟩, hmem⟩
      exact hports.2.2 _ hgone _ (List.mem_map_of_mem hstays) rfl
  · intro route hroute hopen
    obtain ⟨task, htask, hmem⟩ := mem_routesOf.1 hroute
    by_cases hof : isOf client task = true
    · exact .inl (List.mem_map_of_mem (mem_routesOf.2
        ⟨task, List.mem_filter.2 ⟨htask, hof⟩, hmem⟩))
    · exact .inr ⟨route, mem_routesOf.2 ⟨task,
        List.mem_map.2 ⟨task, htask, if_neg hof⟩, hmem⟩, hopen, rfl⟩

/-! ## Registrations -/

def IsRouteFor (client : PrcClient) (address : SockAddr) (route : UdpRoute) :
    Prop :=
  route.peerOpen = true ∧ route.client = { client with udpAddr := address }

/-- The routes of a task that takes a client: one live route changes hands, or
closed ones go and a new one comes if the system grants a socket. -/
inductive Takes (client : PrcClient) (socket : Option SockAddr)
    (routes : List UdpRoute) : Option SockAddr → Bool → List UdpRoute → Prop where
  | reused {before after : List UdpRoute} {it new : UdpRoute}
      (hroutes : routes = before ++ it :: after) (hopen : it.peerOpen = true)
      (hnew : IsRouteFor client it.client.udpAddr new) :
      Takes client socket routes (some it.client.udpAddr) true
        (before ++ new :: after)
  | added {kept : List UdpRoute} {address : SockAddr} {new : UdpRoute}
      (hkept : kept.Sublist routes)
      (hlive : ∀ route ∈ routes, route.peerOpen = true → route ∈ kept)
      (hsocket : socket = some address) (hnew : IsRouteFor client address new) :
      Takes client socket routes (some address) true (kept ++ [new])
  | refused {kept : List UdpRoute} (hkept : kept.Sublist routes)
      (hlive : ∀ route ∈ routes, route.peerOpen = true → route ∈ kept)
      (hsocket : socket = none) : Takes client socket routes none false kept

theorem takes_appendRoute {task : UdpProxyTask} (client : PrcClient)
    (socket : Option SockAddr) (hkept : task.routes.Sublist routes)
    (hlive : ∀ route ∈ routes, route.peerOpen = true → route ∈ task.routes) :
    Takes client socket routes socket (task.appendRoute client socket).1
      (task.appendRoute client socket).2.routes := by
  cases hsocket : socket with
  | none => exact .refused hkept hlive rfl
  | some address => exact .added hkept hlive rfl ⟨rfl, rfl⟩

theorem takes_addRoute (task : UdpProxyTask) (client : PrcClient)
    (socket : Option SockAddr) :
    Takes client socket task.routes (routeAddress (some task) client socket)
      (task.addRoute client socket).1 (task.addRoute client socket).2.routes := by
  cases hsplit : splitRoute (getUdpDestination client) task.routes with
  | none =>
    simp only [routeAddress, addRoute, Option.bind_some, hsplit]
    exact takes_appendRoute client socket (List.Sublist.refl _)
      fun _ hroute _ => hroute
  | some found =>
    obtain ⟨before, it, after⟩ := found
    have hroutes := (splitRoute_some hsplit).1
    simp only [routeAddress, addRoute, Option.bind_some, hsplit]
    by_cases hopen : it.peerOpen = true
    · simp only [hopen, if_true]
      exact .reused hroutes hopen ⟨rfl, rfl⟩
    · simp only [hopen]
      refine takes_appendRoute client socket ?_ ?_
      · rw [hroutes]
        exact (List.Sublist.refl before).append (List.sublist_cons_self it after)
      · intro route hroute hlive
        rw [hroutes] at hroute
        simp only [List.mem_append, List.mem_cons] at hroute ⊢
        rcases hroute with hroute | rfl | hroute
        · exact .inl hroute
        · exact absurd hlive hopen
        · exact .inr hroute

theorem updateFirst_eq (p : UdpProxyTask → Bool)
    (f : UdpProxyTask → Bool × UdpProxyTask) (tasks : List UdpProxyTask) :
    (tasks.find? p = none ∧ UDPTaskMgr.updateFirst p f tasks = none) ∨
      ∃ before task after, tasks = before ++ task :: after ∧
        tasks.find? p = some task ∧
        UDPTaskMgr.updateFirst p f tasks =
          some ((f task).1, before ++ (f task).2 :: after) := by
  induction tasks with
  | nil => exact .inl ⟨rfl, rfl⟩
  | cons task tasks ih =>
    by_cases hp : p task = true
    · exact .inr ⟨[], task, tasks, rfl, by simp [hp],
        by simp [UDPTaskMgr.updateFirst, hp]⟩
    · rcases ih with ⟨hfind, hupdate⟩ | ⟨before, found, after, htasks, hfind,
        hupdate⟩
      · exact .inl ⟨by simp [hp, hfind],
          by simp [UDPTaskMgr.updateFirst, hp, hupdate]⟩
      · exact .inr ⟨task :: before, found, after, by simp [htasks],
          by simp [hp, hfind], by simp [UDPTaskMgr.updateFirst, hp, hupdate]⟩

theorem onNewTask_takes (mgr : UDPTaskMgr) (client : PrcClient)
    (proxyInfo : ProxyInfo) (socket : Option SockAddr) :
    ∃ before old new after,
      mgr.tasklist.filter (fun task => !isStale client proxyInfo task) =
        before ++ old ++ after ∧
      (mgr.onNewTask client proxyInfo true socket).2.tasklist =
        before ++ new ++ after ∧
      Takes client socket (routesOf old)
        (routeAddress (chosenTask client proxyInfo (mgr.tasklist.filter
          fun task => !isStale client proxyInfo task)) client socket)
        (mgr.onNewTask client proxyInfo true socket).1 (routesOf new) := by
  simp only [UDPTaskMgr.onNewTask, isStale, Bool.not_true, Bool.false_eq_true,
    if_false]
  generalize mgr.tasklist.filter _ = tasks
  have hone : ∀ task : UdpProxyTask, routesOf [task] = task.routes := by
    simp [routesOf]
  rcases updateFirst_eq (fun task => task.matchesAssociation client proxyInfo &&
      task.hasRoute client) (fun task => task.addRoute client socket) tasks with
    ⟨hfind, hupdate⟩ | ⟨before, task, after, htasks, hfind, hupdate⟩
  · rcases updateFirst_eq (fun task =>
        task.matchesAssociation client proxyInfo &&
          task.canAcceptRoute client) (fun task => task.addRoute client socket)
        tasks with
      ⟨hfind', hupdate'⟩ | ⟨before, task, after, htasks, hfind', hupdate'⟩
    · simp only [chosenTask, hfind, hfind', hupdate, hupdate', Option.or_none]
      have htakes := takes_addRoute ⟨client, proxyInfo, [], false, 0⟩ client socket
      cases socket with
      | none => exact ⟨tasks, [], [], [], by simp, by simp [setTaskInfo,
          addRoute, splitRoute, appendRoute],
          .refused (List.Sublist.refl _) (by simp [routesOf]) rfl⟩
      | some address =>
        have hset : setTaskInfo client proxyInfo (some address) = some
            ((⟨client, proxyInfo, [], false, 0⟩ : UdpProxyTask).addRoute
              client (some address)).2 := rfl
        refine ⟨tasks, [], [_], [], by simp, by rw [hset, List.append_nil], ?_⟩
        rw [hset, hone]
        exact htakes
    · simp only [chosenTask, hfind, hfind', hupdate, hupdate', Option.none_or]
      exact ⟨before, [task], [_], after, by simp [htasks], by simp; rfl, by
        rw [hone, hone]; exact takes_addRoute task client socket⟩
  · simp only [chosenTask, hfind, hupdate, Option.some_or]
    exact ⟨before, [task], [_], after, by simp [htasks], by simp; rfl, by
      rw [hone, hone]; exact takes_addRoute task client socket⟩

/-- The state of a port after `OnNewTask`. -/
def registered (client : PrcClient) (states : PortState) :
    Bool → Option SockAddr → PortState
  | true, some address =>
    registerRoutePort { client with udpAddr := address } states
  | _, _ => states

theorem Owned.takes {before old after : List UdpRoute}
    (h : Owned (before ++ old ++ after) states) {client : PrcClient}
    {socket address : Option SockAddr} {ok : Bool} {new : List UdpRoute}
    (htakes : Takes client socket old address ok new)
    (hfresh : ∀ address ∈ socket, address.getPort ≠ 0 ∧
      ∀ route ∈ before ++ old ++ after, portOf route ≠ address.getPort) :
    Owned (before ++ new ++ after) (registered client states ok address) := by
  cases htakes with
  | @reused first last it new hroutes hopen hnew =>
    have hclient : { client with udpAddr := it.client.udpAddr } = new.client :=
      hnew.2.symm
    have hport : portOf new = portOf it := by rw [portOf, ← hclient]; rfl
    have hit : it ∈ before ++ old ++ after := by simp [hroutes]
    simp only [registered, hclient]
    refine h.register ?_ (by simp) hnew.1 (hport ▸ h.port_ne it hit) ?_ ?_
    · simpa [hroutes, hport] using h.nodup
    · intro route hroute
      simp only [List.mem_append, List.mem_cons, hroutes] at hroute ⊢
      tauto
    · intro route hroute _
      simp only [List.mem_append, List.mem_cons, hroutes] at hroute ⊢
      rcases eq_or_ne route it with rfl | hne
      · exact .inl hport.symm
      · tauto
  | @added kept addr new hkept hlive hsocket hnew =>
    have hclient : { client with udpAddr := addr } = new.client := hnew.2.symm
    have hport : portOf new = addr.getPort := by rw [portOf, ← hclient]
    obtain ⟨hzero, hapart⟩ := hfresh addr hsocket
    have hsub : (before ++ kept ++ after).Sublist (before ++ old ++ after) :=
      ((List.Sublist.refl _).append hkept).append (List.Sublist.refl _)
    simp only [registered, hclient]
    refine h.register ?_ (by simp) hnew.1 (hport ▸ hzero) ?_ ?_
    · have hperm : (before ++ (kept ++ [new]) ++ after).Perm
          (new :: (before ++ kept ++ after)) := by
        have hmiddle : (before ++ kept ++ new :: after).Perm
            (new :: (before ++ kept ++ after)) := List.perm_middle
        simpa using hmiddle
      rw [(hperm.map portOf).nodup_iff, List.map_cons, List.nodup_cons]
      refine ⟨?_, (hsub.map portOf).nodup h.nodup⟩
      intro hmem
      obtain ⟨route, hroute, hsame⟩ := List.mem_map.1 hmem
      exact hapart route (hsub.subset hroute) (hsame.trans hport)
    · intro route hroute
      simp only [List.mem_append, List.mem_singleton] at hroute ⊢
      have hold : route ∈ kept → route ∈ old := fun hmem => hkept.subset hmem
      tauto
    · intro route hroute hopen
      simp only [List.mem_append, List.mem_singleton] at hroute ⊢
      have hstays := fun hmem => hlive route hmem hopen
      tauto
  | refused hkept hlive hsocket =>
    have hsub := ((List.Sublist.refl before).append hkept).append
      (List.Sublist.refl after)
    change Owned _ (List.foldl clearRoute states [])
    refine h.retire ((hsub.map portOf).nodup h.nodup) ?_ ?_
    · intro route hroute
      exact ⟨route, hsub.subset hroute, rfl, fun hopen =>
        ⟨hopen, rfl, by simp⟩⟩
    · intro route hroute hopen
      simp only [List.mem_append] at hroute
      have hstays := fun hmem => hlive route hmem hopen
      exact .inr ⟨route, by simp only [List.mem_append]; tauto, hopen, rfl⟩

theorem Owned.onNewTask
    (h : Owned (routesOf s.mgr.tasklist) s.portState) (client : PrcClient)
    (proxyInfo : ProxyInfo) (canStart : Bool) (socket : Option SockAddr)
    (hfresh : ∀ address ∈ socket, address.getPort ≠ 0 ∧
      ∀ task ∈ s.mgr.tasklist, isStale client proxyInfo task = false →
        ∀ route ∈ task.routes, portOf route ≠ address.getPort) :
    Owned
      (routesOf (s.onNewTask client proxyInfo canStart socket).2.mgr.tasklist)
      (s.onNewTask client proxyInfo canStart socket).2.portState := by
  cases canStart with
  | false => exact h
  | true =>
    have hstale := h.remove (List.filter_append_perm (isStale client proxyInfo) _)
    obtain ⟨before, old, new, after, hold, hnew, htakes⟩ :=
      onNewTask_takes s.mgr client proxyInfo socket
    have hresult : (s.onNewTask client proxyInfo true socket).2 =
        ⟨(s.mgr.onNewTask client proxyInfo true socket).2,
          registered client ((s.mgr.tasklist.filter
            (isStale client proxyInfo)).foldl clearTaskPortStates s.portState)
            (s.mgr.onNewTask client proxyInfo true socket).1
            (routeAddress (chosenTask client proxyInfo
              (s.mgr.tasklist.filter fun task =>
                !isStale client proxyInfo task)) client socket)⟩ := by
      simp only [UDPPortMgr.onNewTask, Bool.not_true, Bool.false_eq_true, if_false]
      generalize (s.mgr.onNewTask client proxyInfo true socket).1 = ok
      generalize routeAddress _ client socket = address
      cases ok <;> cases address <;> rfl
    have hlisted : ∀ route ∈ routesOf (s.mgr.tasklist.filter fun task =>
        !isStale client proxyInfo task), ∃ task ∈ s.mgr.tasklist,
        isStale client proxyInfo task = false ∧ route ∈ task.routes := by
      intro route hroute
      obtain ⟨task, htask, hmem⟩ := mem_routesOf.1 hroute
      obtain ⟨htask, hkept⟩ := List.mem_filter.1 htask
      exact ⟨task, htask, by simpa using hkept, hmem⟩
    rw [hresult]
    simp only [hnew]
    rw [hold] at hstale hlisted
    simp only [routesOf, List.flatMap_append] at hstale hlisted ⊢
    refine hstale.takes htakes fun address haddress => ?_
    obtain ⟨hzero, hapart⟩ := hfresh address haddress
    refine ⟨hzero, fun route hroute => ?_⟩
    obtain ⟨task, htask, hkept, hmem⟩ := hlisted route hroute
    exact hapart task htask hkept route hmem

/-! ## Runs -/

def core (route : UdpRoute) : PrcClient × Bool := (route.client, route.peerOpen)

theorem Owned.congr {routes' : List UdpRoute}
    (h : Owned routes states) (hcore : routes'.map core = routes.map core) :
    Owned routes' states := by
  have hport : ∀ routes : List UdpRoute, routes.map portOf =
      (routes.map core).map fun c => c.1.udpAddr.getPort := by
    intro routes
    rw [List.map_map]
    rfl
  have hfind : ∀ left right : List UdpRoute, left.map core = right.map core →
      ∀ route ∈ left, ∃ route' ∈ right, core route' = core route := by
    intro left right heq route hroute
    have hmem := List.mem_map_of_mem (f := core) hroute
    rw [heq] at hmem
    exact List.mem_map.1 hmem
  change Owned _ (List.foldl clearRoute states [])
  refine h.retire ?_ ?_ ?_
  · rw [hport, hcore, ← hport]
    exact h.nodup
  · intro route' hroute'
    obtain ⟨route, hroute, heq⟩ := hfind _ _ hcore route' hroute'
    simp only [core, Prod.mk.injEq] at heq
    exact ⟨route, hroute, by rw [portOf, portOf, heq.1], fun hopen =>
      ⟨heq.2.trans hopen, by rw [heq.1], by simp⟩⟩
  · intro route hroute hopen
    obtain ⟨route', hroute', heq⟩ := hfind _ _ hcore.symm route hroute
    simp only [core, Prod.mk.injEq] at heq
    exact .inr ⟨route', hroute', heq.2.trans hopen, by
      rw [portOf, portOf, heq.1]⟩

theorem routesOf_modify {f : UdpProxyTask → UdpProxyTask} {i : Nat}
    {tasks : List UdpProxyTask}
    (hf : ∀ task ∈ tasks[i]?, (f task).routes.map core = task.routes.map core) :
    (routesOf (tasks.modify i f)).map core = (routesOf tasks).map core := by
  induction tasks generalizing i with
  | nil => simp
  | cons task tasks ih =>
    cases i with
    | zero => simpa [routesOf] using hf task rfl
    | succ i => simpa [routesOf] using ih (by simpa using hf)

theorem modifyRoute_core {f : UdpRoute → UdpRoute}
    (hf : ∀ route, core (f route) = core route) (j : Nat) (task : UdpProxyTask) :
    (task.modifyRoute j f).routes.map core = task.routes.map core := by
  refine List.ext_getElem? fun k => ?_
  simp only [modifyRoute, List.getElem?_map, List.getElem?_modify]
  split <;> simp [Function.comp_def, hf]

theorem Owned.step (h : Owned (routesOf s.mgr.tasklist) s.portState)
    {event : PortEvent} (hclean : Clean s event) :
    Owned (routesOf (step s event).mgr.tasklist) (step s event).portState := by
  cases event with
  | kill client => exact h.killTasks client
  | task event =>
    cases event with
    | register r => exact h.onNewTask _ _ _ _ hclean
    | remove i => exact h.removeTask i
    | close i =>
      refine h.congr (routesOf_modify fun task htask => ?_)
      have hclosed := hclean task htask
      simp only [closeTask, List.map_map]
      refine List.map_congr_left fun route hroute => ?_
      simp [core, hclosed route hroute]
    | server i isOpen =>
      refine h.congr (routesOf_modify fun task _ => ?_)
      unfold setServer
      split <;> rfl
    | clientDatagram i j application =>
      refine h.congr (routesOf_modify fun task _ => ?_)
      apply modifyRoute_core
      intro route
      rfl
    | quic i j state =>
      refine h.congr (routesOf_modify fun task _ => ?_)
      apply modifyRoute_core
      intro route
      rfl

theorem Owned.getUDPPortState_iff (h : Owned (routesOf s.mgr.tasklist) s.portState)
    (info : UDPLocalProxyAddrInfo) :
    s.getUDPPortState info = true ↔ HasLiveRoute s info := by
  have hlive : HasLiveRoute s info ↔ ∃ route ∈ routesOf s.mgr.tasklist,
      route.peerOpen = true ∧ route.client.srcAddr.getdwIP = info.clientip ∧
        route.client.srcAddr.getPort = info.clientport ∧
        portOf route = info.proxyport := by
    simp only [HasLiveRoute, mem_routesOf]
    constructor
    · rintro ⟨task, htask, route, hroute, hrest⟩
      exact ⟨route, ⟨task, htask, hroute⟩, hrest⟩
    · rintro ⟨route, ⟨task, htask, hroute⟩, hrest⟩
      exact ⟨task, htask, route, hroute, hrest⟩
  rw [hlive]
  constructor
  · intro hstate
    rcases h.entry info.proxyport with hzero | ⟨route, hroute, hopen, hport⟩
    · simp [getUDPPortState, hzero, UDPLocalProxyAddrInfo.zero] at hstate
    · have hentry := h.live route hroute hopen
      rw [hport] at hentry
      simp only [getUDPPortState, hentry, entryOf] at hstate
      split at hstate
      · cases hstate
      · simp only [Bool.and_eq_true, beq_iff_eq] at hstate
        exact ⟨route, hroute, hopen, hstate.1, hstate.2, hport⟩
  · rintro ⟨route, hroute, hopen, hip, hclientport, hport⟩
    have hentry := h.live route hroute hopen
    have hne := h.port_ne route hroute
    rw [hport] at hentry hne
    have hset : route.client.udpAddr.getPort ≠ 0 := by
      rw [← portOf, hport]
      exact hne
    simp [getUDPPortState, hentry, entryOf, hset, hip, hclientport]

def Consistent (s : UDPPortMgr) : Prop :=
  Owned (routesOf s.mgr.tasklist) s.portState

theorem consistent_initial : Consistent initial := owned_initial

theorem Consistent.step (h : Consistent s) {event : PortEvent}
    (hclean : Clean s event) : Consistent (UDPPortMgr.step s event) :=
  Owned.step h hclean

/-- In every state of a run whose sockets have new port numbers and whose live
routes are closed by `KillTasks` only, the table knows the live routes and no
removal of a task takes the entry of another one's. -/
theorem port_states_agree (events : List PortEvent)
    (hclean : Admissible step Clean initial events) :
    (∀ info, (run step initial events).getUDPPortState info = true ↔
      HasLiveRoute (run step initial events) info) ∧
      SparesOthers (run step initial events) := by
  have hconsistent : Consistent (run step initial events) :=
    @run_invariant _ _ step Clean Consistent
      (fun _ _ hs hok => Consistent.step hs hok) _ _ consistent_initial hclean
  exact ⟨Owned.getUDPPortState_iff hconsistent, Owned.sparesOthers hconsistent⟩

/-- A datagram socket `s` of one process that sends to the given address. -/
def portClient (s : Nat) (destination : SockAddr) : PrcClient :=
  { PrcClient.zero with
    dwPid := 7
    sType := .dgram
    s := s
    srcAddr := .inet .loopback (UInt16.ofNat (5000 + s))
    dstAddr := destination }

/-- A socket that sends to `192.0.2.1:443`, with a local port. -/
def inetRegistration (port : UInt16) : Registration where
  client := portClient 3 (.inet ⟨192, 0, 2, 1⟩ 443)
  settings := resolverSettings ⟨8, 8, 8, 8⟩
  proxyInfo := resolverProxy
  canStart := true
  socket := some (.inet .loopback port)
  dstAddr_ne := by decide
  name_length := by decide

/-- Another one that sends to `[2001::1]:443`. -/
def inet6Registration (port : UInt16) : Registration where
  client := portClient 4
    (.inet6 ⟨#[32, 1, 0, 0, 0, 0, 0, 0, 0, 0, 0, 0, 0, 0, 0, 1], rfl⟩ 443)
  settings := resolverSettings ⟨8, 8, 8, 8⟩
  proxyInfo := resolverProxy
  canStart := true
  socket := some (.inet6 In6Addr.loopback port)
  dstAddr_ne := by decide
  name_length := by decide

theorem port_states_agree_apart :
    (run step initial [.task (.register (inetRegistration 50000)),
        .task (.register (inet6Registration 50001)),
        .kill (portClient 4 .unspec)]).mgr.tasklist.length = 2 ∧
      (∀ info, (run step initial [.task (.register (inetRegistration 50000)),
        .task (.register (inet6Registration 50001)),
        .kill (portClient 4 .unspec)]).getUDPPortState info = true ↔
          HasLiveRoute (run step initial
            [.task (.register (inetRegistration 50000)),
              .task (.register (inet6Registration 50001)),
              .kill (portClient 4 .unspec)]) info) ∧
      SparesOthers (run step initial
        [.task (.register (inetRegistration 50000)),
          .task (.register (inet6Registration 50001)),
          .kill (portClient 4 .unspec)]) :=
  ⟨by decide, port_states_agree _ (by decide)⟩

theorem port_states_disagree :
    ¬ ∀ events : List PortEvent,
      (∀ info, (run step initial events).getUDPPortState info = true ↔
        HasLiveRoute (run step initial events) info) ∧
        SparesOthers (run step initial events) := by
  intro h
  have hstate := ((h [.task (.register (inetRegistration 50000)),
    .task (.register (inet6Registration 50000))]).1
      ⟨.loopback, 5003, 50000⟩).2 (by decide)
  revert hstate
  decide

end UDPPortMgr

end ProxyLane.Hook
