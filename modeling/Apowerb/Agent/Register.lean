/-
# The row of a new agent

`register_agent` (`core/agent_main.py`) inserts one row for the schema that it is given.  Its dates
and the hash of its template are arguments; the schema has no field for the hub agent that it was
cloned from, so that is one too.
-/
import Apowerb.Agent.Definition

namespace Apowerb.Agent.Register

open Definition

/-- `model_params_to_store`, before the key is encrypted. -/
def registerParams (agent : AgentCreateSchema) : Dict :=
  stripDefaultLlmParams agent.agentModel (agent.agentModelParams.getD [])

/-- The row that is inserted. -/
def newRow (C : Cipher) (templateHash : String → Option String) (createdAt : String)
    (hubOriginId : Option String) (agent : AgentCreateSchema) (params : Dict) : Row where
  agentName := agent.agentName
  agentModel := agent.agentModel
  agentModelParams := params
  agentDescription := agent.agentDescription
  agentInstruction := agent.agentInstruction
  agentTools := agent.agentTools.getD []
  agentType := agent.agentType
  subAgents := agent.subAgents.getD []
  outputKey := agent.outputKey
  outputSchemaName := agent.outputSchemaName
  skipWhenUpstream := agent.skipWhenUpstream
  inputSchema := agent.inputSchema
  outputSchema := agent.outputSchema
  codeExecutor := agent.codeExecutor
  createdAt := createdAt
  status := "active"
  organizationId := agent.organizationId
  projectId := agent.projectId
  tags := agent.tags.getD []
  guardrailsConfig := agent.guardrailsConfig.getD []
  memoryEnabled := agent.memoryEnabled
  caseBankEnabled := agent.caseBankEnabled.getD false
  artifactsEnabled := agent.artifactsEnabled
  superagentTemplateId := agent.superagentTemplateId
  superagentTemplateVersionHash :=
    (agent.superagentTemplateId.filter (· ≠ "")).bind templateHash
  loopMaxIterations := agent.loopMaxIterations.filter (· ≠ 0)
  loopExitInstruction := agent.loopExitInstruction
  mcpServers := encryptMcpServers C (agent.mcpServers.getD [])
  agentSkills := agent.agentSkills.getD []
  hubOriginId := hubOriginId

end Apowerb.Agent.Register
