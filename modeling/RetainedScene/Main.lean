import RetainedScene.Demo

/-!
# The demonstration as a program

Prints the demonstration to standard output, and the lines of its journal that the environment
variable `RUST_LOG` asks for to standard error.
-/

def main : IO Unit := do
  let (text, lines) := RetainedScene.Demo.run (← IO.getEnv "RUST_LOG")
  (← IO.getStdout).putStr text
  for line in lines do
    (← IO.getStderr).putStrLn line
