/-!
# Support code of states

The state of a bound name is a one-slot channel, written once by the task, and a once-gate that
lets exactly one reader receive from it. Every other reader waits at the gate and then sees the
outcome that was kept. A recorded failure fails every read.
-/

namespace Desugar.Support

/-- The support code, with every name of its own beginning with a stem. -/
def source (stem : String) : String :=
  "type " ++ stem ++ "Outcome[T any] struct \x7b\n" ++
  "\tvalue   T\n" ++
  "\tfailure any\n" ++
  "\x7d\n\n" ++
  "type " ++ stem ++ "Sync[T any] struct \x7b\n" ++
  "\tonce    sync.Once\n" ++
  "\tch      chan " ++ stem ++ "Outcome[T]\n" ++
  "\tvalue   T\n" ++
  "\tfailure any\n" ++
  "\x7d\n\n" ++
  "func " ++ stem ++ "NewSync[T any]() *" ++ stem ++ "Sync[T] \x7b\n" ++
  "\treturn &" ++ stem ++ "Sync[T]\x7bch: make(chan " ++ stem ++ "Outcome[T], 1)\x7d\n" ++
  "\x7d\n\n" ++
  "func (s *" ++ stem ++ "Sync[T]) put(value T) \x7b\n" ++
  "\ts.ch <- " ++ stem ++ "Outcome[T]\x7bvalue: value\x7d\n" ++
  "\x7d\n\n" ++
  "func (s *" ++ stem ++ "Sync[T]) fail(failure any) \x7b\n" ++
  "\ts.ch <- " ++ stem ++ "Outcome[T]\x7bfailure: failure\x7d\n" ++
  "\x7d\n\n" ++
  "func (s *" ++ stem ++ "Sync[T]) get() T \x7b\n" ++
  "\ts.once.Do(func() \x7b\n" ++
  "\t\toutcome := <-s.ch\n" ++
  "\t\ts.value, s.failure = outcome.value, outcome.failure\n" ++
  "\t\x7d)\n" ++
  "\tif s.failure != nil \x7b\n" ++
  "\t\tpanic(s.failure)\n" ++
  "\t\x7d\n" ++
  "\treturn s.value\n" ++
  "\x7d\n"

end Desugar.Support
