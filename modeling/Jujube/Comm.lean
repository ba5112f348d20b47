import Jujube.Ip
import Jujube.Kernel

/-!
# `comm.c`: the tickle pipe, and connecting

`create_connect_socket` opens a non-blocking socket and starts to connect it.  What the system
calls come to is a parameter (`Dial`).  Addresses are the bytes of the structures in memory: a
`sockaddr_in` has its family at offset 0, its port at 2 and its address at 4, a `sockaddr_in6` has
its address at 8.
-/

namespace Jujube

open Bytes

/-- `set_wake_up_polling`, when its calls succeed: the tickle pipe is opened, and its end `rd` is
registered as a descriptor. -/
def setWakeUpPolling (rd wr : ℤ) (K : Kernel) : Kernel :=
  epollCtl .add rd ⟨.fd rd, ⟨true, false⟩⟩ ((K.openFd rd).openFd wr)

/-- Nothing but the pipe is registered after that. -/
theorem setWakeUpPolling_interest (rd wr : ℤ) (opened : Finset ℤ) (fd : ℤ) :
    (setWakeUpPolling rd wr (.unwatched opened)).interest fd = none ∨
      (setWakeUpPolling rd wr (.unwatched opened)).interest fd = some ⟨.fd rd, ⟨true, false⟩⟩ := by
  have hacc : (((Kernel.unwatched opened).openFd rd).openFd wr).Accepts rd .add :=
    ⟨Finset.mem_insert_of_mem (Finset.mem_insert_self _ _), rfl⟩
  rw [setWakeUpPolling, epollCtl_of_accepts hacc, Kernel.watch_interest]
  by_cases hfd : fd = rd
  · subst hfd
    exact .inr (Function.update_self _ _ _)
  · exact .inl (Function.update_of_ne hfd _ _)

/-- What `socket`, the setting of `O_NONBLOCK` and `connect` come to. -/
inductive Dial
  | noSocket
  | blocking (fd : ℤ)
  | refused (fd : ℤ)
  | inProgress (fd : ℤ)
  | connected (fd : ℤ)
  deriving DecidableEq

/-- The descriptor that was opened. -/
def Dial.fd? : Dial → Option ℤ
  | .noSocket => none
  | .blocking fd | .refused fd | .inProgress fd | .connected fd => some fd

/-- What `create_connect_socket` leaves: its result, `*peeraddr`, the bytes `connect` was given if
it was called, and the descriptors. -/
structure Connect where
  sock : ℤ
  peeraddr : Memory
  passed : Option (List UInt8)
  kernel : Kernel

/-- `sizeof(struct sockaddr)`, the length that `connect_nonb` passes -/
def sizeofSockaddr : ℕ := 16

/-- The address that `create_connect_socket` builds in `*peeraddr`.  Its `memcpy`s copy the size of
the whole socket address from the union in `jaddr`: `behind` is what follows `jaddr` in memory. -/
def fillPeeraddr (peeraddr : Memory) (jaddr : JujubeInAddr) (behind : List UInt8)
    (ipFlag port : ℕ) : Memory :=
  if ipFlag = useIpv4 then
    let p := write peeraddr 0 (le 2 2)
    let p := write p 2 (le 2 port)
    write p 4 ((jaddr.bytes ++ behind).take 16)
  else
    let p := write peeraddr 0 (le 2 10)
    let p := write p 2 (le 2 port)
    write p 8 ((jaddr.bytes ++ behind).take 28)

/-- `create_connect_socket` -/
def createConnectSocket (peeraddr : Memory) (jaddr : JujubeInAddr) (behind : List UInt8)
    (ipFlag port : ℕ) (d : Dial) (K : Kernel) : Connect :=
  let p := fillPeeraddr peeraddr jaddr behind ipFlag port
  match d with
  | .noSocket => ⟨-1, p, none, K⟩
  | .blocking fd => ⟨-2, p, none, K.openFd fd⟩
  | .refused fd => ⟨-3, p, some (read p 0 sizeofSockaddr), K.openFd fd⟩
  | .inProgress fd | .connected fd => ⟨fd, p, some (read p 0 sizeofSockaddr), K.openFd fd⟩

end Jujube
