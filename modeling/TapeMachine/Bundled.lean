/-!
Demonstration programs: a greeting, the lyrics of a counting song, and one that copies its input
up to the first zero byte.
-/

set_option autoImplicit false
set_option relaxedAutoImplicit false

namespace TapeMachine.Bundled

/-- Prints the lyrics of "99 Bottles of Beer". The shape of the text is part of the joke, so its
blanks are kept. -/
def bottles : String :=
  String.join [
    "           +++           +++           +++           [>+           +++           ++>           +++           +++           <<- \n",
    "    ]>+           ++>           +++           >++           +++           +++           ++>           +++           +++ \n",
    "   +++>+         +++++         +++++         [>+++         >++++         >++++         <<<-]         >->>+         +>+++ \n",
    "   +++++         [>+++         +++++         ++++>         +++++         +++++         ++>++         +++++         +++++ \n",
    "   >++++         +++++         +++>+         +++++         +++++         +>+++         +++++         +++++         >++++\n",
    "   +++++         ++++>         +++++         +++++         +++>+         +++++         +++++         ++>++         +++++ \n",
    "  ++++++>       +++++++       ++++++>       +++++++       +++++++       >++++++       +++++++       +>+++++       +++++++\n",
    "  ++>++++       +++++++       +++>+++       +++++++       ++++>++       +++++++       +++++<<       <<<<<<<       <<<<<<<\n",
    "  <-]>+>+       +>++++>       +++++>+       +++++>>       +>+++>+       +++>+++       +++>+++       ++++>>+       +>+++>+ \n",
    " +++>+++++     >+++++++<     <<<<<<<<<     <<<<<<<<<     <<<<[>[<<     <.>.>>>>.     >>>>>.>>>     >>>>>>.>>     >>..<<<<<\n",
    "<.<<<<<.>>>   >>>>>>>.<<<   <<<<<<<<<<<   <<<.>>>>>>>   >>>>>>>.<<<   <<<.<<<<<<<   <.>>>>>.>>.   .>>>>>>>>>.   <<<<<<<<<<<\n",
    "<<<<<.>>>>>   >>>>>>>>>.<   .<<<<<<<<<<   <<<.>>>>>>>   >>>>>>>>>>>   .<<<<<<<<<.   <<.<<<<<<<.   >>>>>>>>>>>   >>>>>>>>>.<\n",
    "<<<<<<<<<<<   <<<<.>>>>>>   >>..<<<<<<<   <<<<.<.<<<<   <.>.>>>>.>>   >>>.>>>>>>>   >>.>>>>..<<   <<<<.<<<<<.   >>>>>>>>>>.\n",
    "<<<<<<<<<<<   <<<<<<.>>>>   >>>>>>>>>>.   <<<<<<.<<<<   <<<<.>>>>>.   >>..>>>>>>>   >>.<<<<<<<<   <<<<<<<.<.>   >>>>>>>>>>>\n",
    ">>>>>>.<<<<   <<<<<<<<<<.   >>>>>>>.<<<   <.<<<<<<<.>   >>>>>>>>>>>   >>.<.<<<<<<   .<<<<<<<.>>   >>>>.>>>>>>   >>.>>>>>>.<\n",
    "<<<<<<.<<<<   <<<<<<<<<.>   >>>.>>>>>>>   >>.<<<<<<<.   <<<<<<.>>>>   >>>>>>>>>>>   .<<<<<<<<<<   <.>>>>>>>>>   >>>>..<<<<<\n",
    "<<<<<<<<<<<   <.>>>>>>>>>   >.>>>>>>>>.   <<<<<<<<<<<   <<<<<<<.>>>   >.>>>>>>>>>   >>>.<<.>>>>   >.<<<<<<.<<   <<<<<.<<<<<\n",
    ".<.<<<<<.>-   .>>>>.>>>>>   .>>>>>>>>>.   >>>>..<<<<<   <.<<<<<.>>>   >>>>>>>.<<<   <<<<<<<<<<<   <<<.>>>>>>>   >>>>>>>.<<<\n",
    "<<<.<<<<<<<   <.>>>>>.>>.   .>>>>>>>>>.   <<<<<<<<<<<   <<<<<.>>>>>   >>>>>>>>>.<   .<<<<<<<<<<   <<<.>>>>>>>   >>>>>>>>>>>\n",
    " .<< < <<<     <<< . <<.     <<< < <<<     .>> > >>>     >>> > >>>     >>> > >>>     .<< < <<<     <<< < <<<     <<< . >>> \n",
    "  >> >>>.       .<<< <<       <<<< <.       << . <<       -]+ +++       ++ + ++       << + ++       ++ + ++       +<->>-]"]

/-- Prints a greeting. -/
def hello : String :=
  "++++++++[>++++[>++>+++>+++>+<<<<-]>+>+>->>+[<]<-]" ++
    ">>.>---.+++++++..+++.>>.<-.<.+++.------.--------.>>+.>++."

/-- Copies its input up to the first zero byte. -/
def cat : String := ",[.,]"

/-- The programs that can be asked for by name, by name. -/
def demos : List (String × String) := [("bottles", bottles), ("hello", hello)]

/-- The program of a name. -/
def demo? (name : String) : Option String := demos.lookup name

end TapeMachine.Bundled
