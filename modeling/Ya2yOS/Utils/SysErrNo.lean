import Mathlib.Data.Nat.Notation

/-!
# Error numbers

The part of `SysErrNo` that the modelled calls return, and the result of a call.
-/

namespace Ya2yOS

inductive SysErrNo where
  | EPERM
  | ENOENT
  | ESRCH
  | EBADF
  | EBADFD
  | ENOMEM
  | EACCES
  | EFAULT
  | EEXIST
  | EINVAL
  | ETXTBSY
  | EAGAIN
  | EINTR
  | ETIMEDOUT
  | ENOSYS
  | EOPNOTSUPP
  | EIO
  | ENOSPC
  | EMFILE
  | EPIPE
  | EBUSY
  | ENOBUFS
  | EDEADLK
  | ENOMSG
  | EIDRM
  | E2BIG
  | ECHILD
  | ERESTART
  | EMSGSIZE
  | ESPIPE
  | EISDIR
  | EFBIG
  | ENOTDIR
  | ENOTEMPTY
  | EXDEV
  | ELOOP
  | ENOTCONN
  | EAFNOSUPPORT
deriving DecidableEq, Repr

namespace SysErrNo

def code : SysErrNo → ℕ
  | EPERM => 1
  | ENOENT => 2
  | ESRCH => 3
  | EBADF => 9
  | EBADFD => 77
  | ENOMEM => 12
  | EACCES => 13
  | EFAULT => 14
  | EEXIST => 17
  | EINVAL => 22
  | ETXTBSY => 26
  | EAGAIN => 11
  | EINTR => 4
  | ETIMEDOUT => 110
  | ENOSYS => 38
  | EOPNOTSUPP => 95
  | EIO => 5
  | ENOSPC => 28
  | EMFILE => 24
  | EPIPE => 32
  | EBUSY => 16
  | ENOBUFS => 105
  | EDEADLK => 35
  | ENOMSG => 42
  | EIDRM => 43
  | E2BIG => 7
  | ECHILD => 10
  | ERESTART => 85
  | EMSGSIZE => 90
  | ESPIPE => 29
  | EISDIR => 21
  | EFBIG => 27
  | ENOTDIR => 20
  | ENOTEMPTY => 39
  | EXDEV => 18
  | ELOOP => 40
  | ENOTCONN => 107
  | EAFNOSUPPORT => 97

end SysErrNo

abbrev SyscallRet := Except SysErrNo ℕ

end Ya2yOS
